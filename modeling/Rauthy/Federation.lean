/-
Rauthy/Federation.lean

Which local users a login with an upstream provider may end in.  The claims are under the
control of the provider's user, so an account is found by its link to the provider only,
or by its e-mail and a link cookie that was handed out to it.

Main results:
  * `takeover_barrier`: only such a user is answered or changed; the e-mail of the cookie
    is compared with the copy of the user that the e-mail lookup answers;
  * `link_respected`: a request with a link cookie concerns the user of the cookie only, if
    the identity of the claims is this user's or nobody's.  The cookie is not looked at when the
    identity belongs to somebody else, nor when the e-mail is unknown.
-/
import Rauthy.AuthProviders
import Rauthy.UserCaches

namespace Rauthy

open Prog AuthProviderIdClaims

/-! ### What a login writes -/

section Touches

variable {data : AppState} {c : AuthProviderIdClaims} {provider : AuthProvider}

theorem findUser_touches (cookie : Option AuthProviderLinkCookie) (email uid : String) :
    Touches [] [(.users, .user)] (findUser data provider cookie email uid) := by
  have hfed : Touches [] [(.users, .user)] (User.findByFederation provider.id uid) :=
    touches_fetchOne _ _
  refine touches_bind (touches_attempt hfed) fun r => ?_
  rcases r with e | user
  · refine touches_bind (touches_attempt (User.findByEmail_touches data email)) fun r => ?_
    rcases r with e | user
    · exact touches_ret _
    · exact touches_bind (touches_answer _) fun _ => touches_ret _
  · exact touches_ret _

/-- What the login of an existing user and a new one write. -/
def loginTables : List Table := [.users, .sessions, .refreshTokens]

def loginSlots : List (CacheName × Slot) := [(.sessions, .session), (.users, .user), (.c12hr, .count)]

theorem updateUser_touches (email uid : String) (admin : Option Bool) (now : Int) (user : User) :
    Touches loginTables loginSlots (c.updateUser data provider email uid admin now user) := by
  have hsave : ∀ (u : User) (old : Option String), Touches loginTables loginSlots (u.save data old) :=
    fun u old => (u.save_touches data old).mono (by simp [loginTables]) (by simp [loginSlots])
  unfold updateUser
  split
  · exact touches_bind (hsave _ _) fun _ => touches_fail _
  · exact touches_bind (hsave _ _) fun _ => touches_ret _

theorem insert_touches (u : User) : Touches [.users] [(.c12hr, .count)] (User.insert u) := by
  refine touches_bind (touches_execute (by simp [DbWrite.table])) fun _ => touches_bind ?_
    fun _ => touches_ret _
  have hcount : Touches [.users] [(.c12hr, .count)] User.count :=
    User.count_touches.mono (by simp) (by simp)
  exact touches_bind hcount fun _ => touches_cachePut (by simp [CacheVal.slot]) _

theorem loginUser_touches (email uid : String) (admin : Option Bool) (now : Int)
    (userOpt : Option User) :
    Touches loginTables loginSlots (c.loginUser data provider email uid admin now userOpt) := by
  cases userOpt with
  | some user => exact updateUser_touches email uid admin now user
  | none =>
      refine touches_bind (touches_getRand _) fun id => touches_bind touches_unixTimestamp fun now => ?_
      exact (insert_touches _).mono (by simp [loginTables]) (by simp [loginSlots])

theorem saveValues_touches (userId : String) :
    Touches [.usersValues] [(.users, .userValues)] (c.saveValues userId) := by
  refine touches_bind ((UserValues.find_touches userId).mono (by simp) (by simp)) fun values => ?_
  exact touches_runIf (touches_bind (UserValues.upsert_touches _ _) fun _ => touches_ret _)

theorem validateUpdateUser_touches (cookie : Option AuthProviderLinkCookie) :
    Touches (.usersValues :: loginTables) ((.users, .userValues) :: loginSlots)
      (c.validateUpdateUser data provider cookie) := by
  refine touches_bind (touches_okOr _ _) fun email => touches_bind (touches_okOr _ _) fun uid => ?_
  refine touches_bind ((findUser_touches cookie email uid).mono (by simp) (by simp [loginSlots]))
    fun userOpt => ?_
  refine touches_bind (touches_answer _) fun admin => touches_bind (touches_answer _) fun mfa => ?_
  refine touches_bind touches_unixTimestamp fun now => ?_
  refine touches_bind ((loginUser_touches email uid admin now userOpt).mono (by simp) (by simp))
    fun user => ?_
  exact touches_bind ((saveValues_touches user.id).mono (by simp) (by simp)) fun _ => touches_ret _

end Touches

/-! ### The users that the claims entitle to -/

/-- The user is linked to this identity at the provider. -/
def LinkedTo (provider : AuthProvider) (uid : String) (u : User) : Prop :=
  u.authProviderId = some provider.id ∧ u.federationUid = some uid

/-- The lookup by e-mail can answer with `u`: a copy of it is cached under the address, or it is
a row with the address. -/
def AnsweredByEmail (data : AppState) (w : World) (email : String) (u : User) : Prop :=
  w.cache .users (User.cacheIdx (data.toLowercase email)) = some (.user u) ∨
    u ∈ w.db .users ∧ u.email = data.toLowercase email

/-- The request may go on as the user with this id: it is linked to the identity, or the link
cookie names the provider, the user and the e-mail of the user that the lookup by e-mail
answers. -/
inductive Entitled (data : AppState) (c : AuthProviderIdClaims) (provider : AuthProvider)
    (cookie : Option AuthProviderLinkCookie) (w : World) (id : String) : Prop
  | linked {u : User} {uid : String} (hrow : u ∈ w.db .users) (hid : u.id = id)
      (huid : c.userIdOf = some uid) (hlink : LinkedTo provider uid u)
  | cookie {link : AuthProviderLinkCookie} {u : User} {email : String} (hcookie : cookie = some link)
      (hprovider : link.providerId = provider.id) (huser : link.userId = id)
      (hclaim : c.email = some email) (hanswer : AnsweredByEmail data w email u) (hid : u.id = id)
      (hemail : link.userEmail = u.email)

/-- The same with the e-mail that the user has now. -/
inductive EntitledNow (c : AuthProviderIdClaims) (provider : AuthProvider)
    (cookie : Option AuthProviderLinkCookie) (w : World) (id : String) : Prop
  | linked {u : User} {uid : String} (hrow : u ∈ w.db .users) (hid : u.id = id)
      (huid : c.userIdOf = some uid) (hlink : LinkedTo provider uid u)
  | cookie {link : AuthProviderLinkCookie} {u : User} (hcookie : cookie = some link)
      (hprovider : link.providerId = provider.id) (huser : link.userId = id)
      (hrow : u ∈ w.db .users) (hid : u.id = id) (hemail : link.userEmail = u.email)

/-- Only the users with the ids in `E` are answered or changed. -/
structure OnlyFor (E : String → Prop) (w : World)
    (r : Except (Fault ErrorResponse) (User × ProviderMfaLogin)) (w' : World) : Prop where
  returned : ∀ u mfa, r = .ok (u, mfa) → (∃ v ∈ w.db .users, v.id = u.id) → E u.id
  unchanged : ∀ u ∈ w.db .users, ¬ E u.id → u ∈ w'.db .users

/-- A transaction that is answered has found its statements to apply. -/
theorem keeps_executed {J : World → Prop} {ss : List DbWrite} {F : Prop}
    (h : ∀ w db, J w → Commits ss w.db db → J { w with db } ∧ F) :
    Keeps sem J (execute ss) fun _ => F := by
  refine keeps_call fun w x w' hJ hx => ?_
  rcases sem_execute.mp hx with ⟨e, rfl, rfl⟩ | ⟨db, hdb, rfl⟩
  · exact ⟨hJ, trivial⟩
  · exact ⟨(h w db hJ hdb).1, keeps_answer fun _ _ => (h w db hJ hdb).2⟩

section Barrier

variable {data : AppState} {c : AuthProviderIdClaims} {provider : AuthProvider}
  {cookie : Option AuthProviderLinkCookie} {w₀ : World} {email uid : String}
  {u : User}

theorem linkUser_ok {user : User} (h : linkUser provider cookie uid user = .ok u) :
    ∃ link, cookie = some link ∧ link.providerId = provider.id ∧ link.userId = user.id ∧
      link.userEmail = user.email ∧
      u = { user with authProviderId := some provider.id, federationUid := some uid } := by
  unfold linkUser at h
  split at h
  · cases h
  next link =>
  split at h
  · cases h
  next hp =>
  split at h
  · cases h
  next hu =>
  split at h
  · cases h
  next he =>
  cases h
  push Not at hp hu he
  exact ⟨link, rfl, hp, hu, he, rfl⟩

/-- While the user is looked up: the rows are the same, and what is cached under the address
can be answered. -/
structure Looking (data : AppState) (w₀ : World) (email : String) (w : World) : Prop where
  rows : w.db .users = w₀.db .users
  cached : ∀ v, w.cache .users (User.cacheIdx (data.toLowercase email)) = some v →
    w₀.cache .users (User.cacheIdx (data.toLowercase email)) = some v ∨
      ∃ u, v = .user u ∧ AnsweredByEmail data w₀ email u

theorem looking_findByFederation :
    Keeps sem (Looking data w₀ email) (User.findByFederation provider.id uid) fun u =>
      u ∈ w₀.db .users ∧ LinkedTo provider uid u :=
  keeps_fetchOne fun w u hw hu hp => by
    rw [hw.rows] at hu
    simp only [Bool.and_eq_true, beq_iff_eq] at hp
    exact ⟨hu, hp⟩

theorem Looking.put {w : World} (h : Looking data w₀ email w) (hu : AnsweredByEmail data w₀ email u)
    {k : String} :
    Looking data w₀ email (w.put .users k (.user u)) where
  rows := h.rows
  cached v hv := by
    rw [World.put_cache] at hv
    split at hv
    · cases hv
      exact .inr ⟨u, rfl, hu⟩
    · exact h.cached v hv

theorem Looking.del {w : World} (h : Looking data w₀ email w) {k : String} :
    Looking data w₀ email (w.del .users k) where
  rows := h.rows
  cached v hv := by
    rw [World.del_cache] at hv
    split at hv
    · cases hv
    · exact h.cached v hv

theorem looking_findByEmail :
    Keeps sem (Looking data w₀ email) (User.findByEmail data email)
      (AnsweredByEmail data w₀ email) := by
  refine keeps_cached (fun w h => h.del) ?_ ?_ fun w u hu h => h.put hu
  · intro w v u h hv hu
    rw [CacheVal.user?_eq_some.mp hu] at hv
    rcases h.cached _ hv with hv | ⟨u', he, hu'⟩
    · exact .inl hv
    · cases he
      exact hu'
  · refine keeps_fetchOne fun w u h hu hp => .inr ⟨?_, beq_iff_eq.mp hp⟩
    rw [← h.rows]
    exact hu

/-- The user that is found is one that the request may go on as. -/
theorem looking_findUser (hemail : c.email = some email) (huid : c.userIdOf = some uid) :
    Keeps sem (Looking data w₀ email) (findUser data provider cookie email uid) fun found =>
      ∀ u, found = some u → Entitled data c provider cookie w₀ u.id := by
  refine keeps_bind (keeps_tried looking_findByFederation) fun r hr => ?_
  rcases r with e | user
  · refine keeps_bind (keeps_tried looking_findByEmail) fun r hr => ?_
    rcases r with e | user
    · exact keeps_ret (by simp)
    · have hanswer := hr user rfl
      refine keeps_bind (keeps_answer fun u hu => hu) fun u hu => keeps_ret ?_
      obtain ⟨link, hcookie, hp, hid, he, rfl⟩ := linkUser_ok hu
      rintro v ⟨⟩
      exact .cookie hcookie hp hid hemail hanswer rfl he
  · obtain ⟨hrow, hlink⟩ := hr user rfl
    refine keeps_ret ?_
    rintro u ⟨⟩
    exact .linked hrow rfl huid hlink

/-- The rows outside `E` are still there. -/
def Spared (E : String → Prop) (w₀ w : World) : Prop :=
  ∀ u ∈ w₀.db .users, ¬ E u.id → u ∈ w.db .users

variable {E : String → Prop} {α : Type}

theorem spared_of_touches {p : M ErrorResponse α} {ts : List Table} {cs : List (CacheName × Slot)}
    (hp : Touches ts cs p) (hts : Table.users ∉ ts) :
    Keeps sem (Spared E w₀) p fun _ => True := by
  refine keeps_of_touches hp fun w w' hf h u hu hno => ?_
  rw [hf.db .users hts]
  exact h u hu hno

theorem spared_save (hu : E u.id) (old : Option String) :
    Keeps sem (Spared E w₀) (u.save data old) fun _ => True := by
  refine keeps_bind (keeps_runIf fun _ => spared_of_touches (User.isEmailFree_touches data _)
    (by simp)) fun _ _ => ?_
  refine keeps_bind (keeps_execute fun w db h hdb v hv hno => ?_) fun _ _ =>
    spared_of_touches (u.saveCached_touches old) (by simp)
  -- the statement is about another row
  show v ∈ db .users
  rw [saveStmt_users hdb.applied]
  have hne : v.id ≠ u.id := fun he => hno (he ▸ hu)
  exact List.mem_map.mpr ⟨v, h v hv hno, by simp [hne]⟩

theorem spared_updateUser (admin : Option Bool) (now : Int) {user : User} (hu : E user.id) :
    Keeps sem (Spared E w₀) (c.updateUser data provider email uid admin now user)
      fun u => E u.id := by
  unfold updateUser
  split
  · exact keeps_bind (spared_save (by exact hu) none) fun _ _ => keeps_fail
  · exact keeps_bind (spared_save (by exact hu) _) fun _ _ => keeps_ret (by exact hu)

/-- A new user is a new row: its id is not that of a row outside `E`. -/
theorem spared_insert {n : User} :
    Keeps sem (Spared E w₀) (User.insert n) fun u => (∃ v ∈ w₀.db .users, v.id = u.id) → E u.id := by
  refine keeps_bind (F := fun _ => (∃ v ∈ w₀.db .users, v.id = n.id) → E n.id)
    (keeps_executed fun w db h hdb => ?_) fun _ hn => ?_
  · have happlied := hdb.applied
    simp only [applyAll, DbWrite.apply] at happlied
    split at happlied
    · cases happlied
    next hfree =>
    cases happlied
    refine ⟨fun v hv hno => ?_, ?_⟩
    · show v ∈ Function.update w.db .users _ .users
      rw [Function.update_self]
      exact List.mem_append_left _ (h v hv hno)
    · rintro ⟨v, hv, he⟩
      by_contra hno
      refine hfree (List.any_eq_true.mpr ⟨v, h v hv (by rw [he]; exact hno), ?_⟩)
      simp [conflicts, sameKey, he]
  · have hcount : Touches [] [(.c12hr, .count)] User.countInc :=
      touches_bind User.count_touches fun _ => touches_cachePut (by simp [CacheVal.slot]) _
    exact keeps_bind (spared_of_touches hcount (by simp)) fun _ _ => keeps_ret hn

theorem spared_loginUser (admin : Option Bool) (now : Int) {found : Option User}
    (hfound : ∀ u, found = some u → E u.id) :
    Keeps sem (Spared E w₀) (c.loginUser data provider email uid admin now found)
      fun u => (∃ v ∈ w₀.db .users, v.id = u.id) → E u.id := by
  cases found with
  | some user => exact keeps_mono (spared_updateUser admin now (hfound user rfl)) fun _ hu _ => hu
  | none =>
      have hid : Touches [] [] (newStoreId : M ErrorResponse String) := touches_getRand 24
      have hnow : Touches [] [] (unixTimestamp : M ErrorResponse Int) := touches_unixTimestamp
      refine keeps_bind (spared_of_touches hid (by simp)) fun id _ => ?_
      refine keeps_bind (spared_of_touches hnow (by simp)) fun createdAt _ => ?_
      exact spared_insert

/-- **The account of somebody else is neither entered nor changed**, whatever the claims. -/
theorem takeover_barrier (data : AppState) (c : AuthProviderIdClaims) (provider : AuthProvider)
    (cookie : Option AuthProviderLinkCookie) {w w' : World}
    {r : Except (Fault ErrorResponse) (User × ProviderMfaLogin)}
    (hx : Exec sem (c.validateUpdateUser data provider cookie) w r w') :
    OnlyFor (Entitled data c provider cookie w) w r w' := by
  have hnone : Spared (Entitled data c provider cookie w) w w := fun u hu _ => hu
  have herror : ∀ {e w'}, Spared (Entitled data c provider cookie w) w w' →
      OnlyFor (Entitled data c provider cookie w) w (.error e) w' := fun h => ⟨by simp, h⟩
  suffices hout : Outcomes sem (c.validateUpdateUser data provider cookie) w
      (OnlyFor (Entitled data c provider cookie w) w) from hout r w' hx
  refine outcomes_bind (outcomes_okOr (fun email hemail => ?_) fun _ => herror hnone)
  refine outcomes_bind (outcomes_okOr (fun uid huid => ?_) fun _ => herror hnone)
  -- the user that is looked up is one of those
  refine outcomes_bind fun r₁ w₁ hx₁ => ?_
  have hlook : Looking data w email w := ⟨rfl, fun v hv => .inl hv⟩
  obtain ⟨hlooking, hfound⟩ := (looking_findUser hemail huid).exec hlook hx₁
  have hspared : Spared (Entitled data c provider cookie w) w w₁ := by
    intro u hu _
    rw [hlooking.rows]
    exact hu
  rcases r₁ with e | found
  · exact herror hspared
  -- from here on, only its row is written
  have hrest : Keeps sem (Spared (Entitled data c provider cookie w) w) (do
      let shouldBeAdmin ← answer
        (c.hasClaim data "admin" provider.adminClaimPath provider.adminClaimValue)
      let mfa ← answer (c.hasClaim data "mfa" provider.mfaClaimPath provider.mfaClaimValue)
      let now ← unixTimestamp
      let user ← c.loginUser data provider email uid shouldBeAdmin now found
      c.saveValues user.id
      return (user, if mfa = some true then ProviderMfaLogin.yes else .no))
      fun a => (∃ v ∈ w.db .users, v.id = a.1.id) → Entitled data c provider cookie w a.1.id := by
    refine keeps_bind (keeps_answer fun _ _ => trivial) fun admin _ => ?_
    refine keeps_bind (keeps_answer fun _ _ => trivial) fun mfa _ => ?_
    have hnow : Touches [] [] (unixTimestamp : M ErrorResponse Int) := touches_unixTimestamp
    refine keeps_bind (spared_of_touches hnow (by simp)) fun now _ => ?_
    refine keeps_bind (spared_loginUser admin now (hfound found rfl)) fun user huser => ?_
    refine keeps_bind (spared_of_touches (saveValues_touches user.id) (by simp)) fun _ _ => ?_
    exact keeps_ret huser
  intro r₂ w₂ hx₂
  obtain ⟨hspared₂, hreturned⟩ := hrest.exec hspared hx₂
  exact ⟨fun u mfa hr hrow => hreturned (u, mfa) hr hrow, hspared₂⟩

end Barrier

/-- The users and what is cached of them. -/
def federationWorld (users : List User) (copies : List (String × User)) : World where
  clock := 0
  issued := []
  db
    | .users => users
    | _ => []
  cache
    | .users, k => (copies.find? fun c => User.cacheIdx c.1 == k).map fun c => .user c.2
    | _, _ => none

def sampleClaims : AuthProviderIdClaims :=
  { (default : AuthProviderIdClaims) with sub := some "uid", email := some "alice@localhost" }

def sampleProvider : AuthProvider :=
  { (default : AuthProvider) with id := "provider", enabled := true }

def sampleLink : AuthProviderLinkCookie := ⟨"provider", "alice", "alice@localhost"⟩

/-- alice has a new e-mail, and a copy with the old one is cached. -/
def oldCopyWorld : World :=
  federationWorld [{ sampleUser with email := "alice@example" }] [("alice@localhost", sampleUser)]

theorem takeover_barrier_alice : ∃ r w',
    Exec sem (sampleClaims.validateUpdateUser sampleState sampleProvider (some sampleLink))
      oldCopyWorld r w' ∧
    OnlyFor (Entitled sampleState sampleClaims sampleProvider (some sampleLink) oldCopyWorld)
      oldCopyWorld r w' := by
  obtain ⟨r, w', hx, -⟩ := Pool.exists_exec_of_choices Op.run
    (sampleClaims.validateUpdateUser sampleState sampleProvider (some sampleLink))
    [.ok, .ok, .time 0, .ok, .ok, .ok, .ok, .ok, .ok] oldCopyWorld (fun r _ => r.isOk)
    (by decide +kernel)
  exact ⟨r, w', hx, takeover_barrier _ _ _ _ hx⟩

/-- It is the old copy that is compared with the cookie: the link cookie for the old e-mail is
good for the account. -/
theorem linked_by_old_copy :
    ¬ ∀ (data : AppState) (c : AuthProviderIdClaims) (provider : AuthProvider)
        (cookie : Option AuthProviderLinkCookie) (w w' : World)
        (r : Except (Fault ErrorResponse) (User × ProviderMfaLogin)),
      Exec sem (c.validateUpdateUser data provider cookie) w r w' →
        OnlyFor (EntitledNow c provider cookie w) w r w' := by
  intro hall
  obtain ⟨r, w', hx, hr⟩ := Pool.exists_exec_of_choices Op.run
    (sampleClaims.validateUpdateUser sampleState sampleProvider (some sampleLink))
    [.ok, .ok, .time 0, .ok, .ok, .ok, .ok, .ok, .ok] oldCopyWorld
    (fun r _ => r.toOption.any fun x => x.1.id == "alice") (by decide +kernel)
  rcases r with e | ⟨u, mfa⟩
  · cases hr
  have hid : u.id = "alice" := beq_iff_eq.mp hr
  have hrow : { sampleUser with email := "alice@example" } ∈ oldCopyWorld.db .users :=
    List.mem_singleton_self _
  have hentitled := (hall _ _ _ _ _ _ _ hx).returned u mfa rfl ⟨_, hrow, hid.symm⟩
  -- the row is linked to no provider, and its e-mail is not that of the cookie
  cases hentitled with
  | linked hu _ _ hlink =>
      rw [List.mem_singleton.mp hu] at hlink
      cases hlink.1
  | cookie hcookie _ _ hu _ hemail =>
      rw [List.mem_singleton.mp hu] at hemail
      cases hcookie
      exact absurd hemail (by decide)

/-! ### Requests with a link cookie -/

/-- The link cookie of a request, if there is one that can be decoded. -/
def linkCookieOf (data : AppState) (req : HttpRequest) : Option AuthProviderLinkCookie :=
  (req.providerLinkCookie.bind data.decodeLinkCookie).map
    fun c => { providerId := c.1, userId := c.2.1, userEmail := c.2.2 }

/-- The users are read as they are stored: no lookup fails, and no copy is evicted before it
is read. -/
def ReadAsStored : (o : Op) → World → o.Res → Prop
  | .select .users p, w, x => x = .ok ((w.db .users).filter p)
  | .cacheGet .users k, w, x => x = .ok (w.cache .users k)
  | .cachePut .users _ _, _, x => x = .ok ()
  | _, _, _ => True

/-- It is this provider that is asked, and it answers with these claims. -/
def AnswersWith (provider : AuthProvider) (c : AuthProviderIdClaims) : (o : Op) → o.Res → Prop
  | .exchangeUpstreamCode p _, x => ∀ c', x = .ok c' → p = provider ∧ c' = c
  | _, _ => True

/-- The operations of a request that is answered with these claims. -/
def federated (provider : AuthProvider) (c : AuthProviderIdClaims) (o : Op) (w : World) (x : o.Res)
    (w' : World) : Prop :=
  sem o w x w' ∧ ReadAsStored o w x ∧ AnswersWith provider c o x

/-- What the lookup by e-mail answers, if the users are read as they are stored. -/
def emailAnswer (data : AppState) (w : World) (email : String) : Option User :=
  match w.cache .users (User.cacheIdx (data.toLowercase email)) with
  | some v => v.user?
  | none => ((w.db .users).filter fun u => u.email == data.toLowercase email).head?

/-- The identity belongs to the user of the link cookie, at the provider of the cookie; or it
belongs to nobody, and there is a user with the e-mail of the claims. -/
structure OwnIdentity (data : AppState) (provider : AuthProvider) (link : AuthProviderLinkCookie)
    (w : World) (email uid : String) : Prop where
  own : ∀ u ∈ w.db .users, LinkedTo provider uid u →
    u.id = link.userId ∧ provider.id = link.providerId
  known : (∀ u ∈ w.db .users, ¬ LinkedTo provider uid u) →
    ∃ copy, emailAnswer data w email = some copy ∧ ∃ u ∈ w.db .users, u.id = copy.id

/-- The user has the same link, or it is the user `id` and has got this one. -/
def Relink (id pid : String) (uid : Option String) (u v : User) : Prop :=
  (v.authProviderId = u.authProviderId ∧ v.federationUid = u.federationUid) ∨
    (v.id = id ∧ v.authProviderId = some pid ∧ v.federationUid = uid)

/-- The links of the users are the same, but for a link of the user `id`. -/
def Relinked (id pid : String) (uid : Option String) (w w' : World) : Prop :=
  Rowwise User.id (Relink id pid uid) (w.db .users) (w'.db .users)

/-- What a request with a link cookie may do: link the user of the cookie to the provider of
the cookie, and answer so. -/
structure AccountLinked (provider : AuthProvider) (link : AuthProviderLinkCookie)
    (uid : Option String) (w : World) (r : Except (Fault ErrorResponse) AuthStep) (w' : World) :
    Prop where
  links : Relinked link.userId link.providerId uid w w'
  answered : ∀ step, r = .ok step → step = .providerLink ∧ provider.id = link.providerId ∧
    ∃ id, uid = some id ∧ (∃ v ∈ w'.db .users, v.id = link.userId ∧ LinkedTo provider id v) ∧
      ∀ v ∈ w'.db .users, LinkedTo provider id v → v.id = link.userId

/-- `login_finish` from the claims on, with a link cookie: it ends with the account. -/
def federate (data : AppState) (c : AuthProviderIdClaims) (provider : AuthProvider)
    (link : AuthProviderLinkCookie) : M ErrorResponse AuthStep := do
  let (user, _) ← c.validateUpdateUser data provider (some link)
  user.checkEnabled
  user.checkExpired
  return .providerLink

section Linked

variable {data : AppState} {c : AuthProviderIdClaims} {provider : AuthProvider}
  {link : AuthProviderLinkCookie} {w w' : World} {email uid : String}
  {w₁ : World} {r : Except (Fault ErrorResponse) AuthStep}
  {Q : Except (Fault ErrorResponse) User → World → Prop}

theorem loginFinish_link {req : HttpRequest} {payload : ProviderCallbackRequest} {session : Session}
    (hcookie : linkCookieOf data req = some link) :
    loginFinish data req payload session = (do
      let slf ← checkCallback data req payload
      let provider ← AuthProvider.find slf.providerId
      let claims ← call (.exchangeUpstreamCode provider payload.code) answer
      federate data claims provider link) := by
  unfold linkCookieOf at hcookie
  simp only [loginFinish, federate, hcookie, Option.isSome_some, if_true]

/-- Whom the lookups find, the users being read as they are stored. -/
inductive FoundUser (data : AppState) (provider : AuthProvider) (link : AuthProviderLinkCookie)
    (w : World) (email uid : String) : Option User → Prop
  | linked {u : User} (hrow : u ∈ w.db .users) (hlink : LinkedTo provider uid u) :
      FoundUser data provider link w email uid (some u)
  | byEmail {copy u : User} (hnone : ∀ v ∈ w.db .users, ¬ LinkedTo provider uid v)
      (hcopy : emailAnswer data w email = some copy)
      (hu : linkUser provider (some link) uid copy = .ok u) :
      FoundUser data provider link w email uid (some u)
  | new (hnone : ∀ v ∈ w.db .users, ¬ LinkedTo provider uid v)
      (hcopy : emailAnswer data w email = none) : FoundUser data provider link w email uid none

theorem federated_fetchOne {p : User → Bool}
    (hsome : ∀ u, ((w.db .users).filter p).head? = some u → Q (.ok u) w)
    (hnone : ((w.db .users).filter p).head? = none → Q (.error (err .notFound "not found")) w) :
    Outcomes (federated provider c) (fetchOne .users p) w Q := by
  refine outcomes_bind (outcomes_call fun x w₁ hx => ?_)
  obtain ⟨hsem, rfl, -⟩ := hx
  obtain ⟨rfl, -⟩ := sem_select.mp hsem
  exact outcomes_ret (outcomes_okOr hsome hnone)

theorem federated_findByEmail
    (hsome : ∀ u w₁, emailAnswer data w email = some u → w₁.db = w.db → Q (.ok u) w₁)
    (hnone : ∀ e w₁, emailAnswer data w email = none → w₁.db = w.db → Q (.error (.err e)) w₁) :
    Outcomes (federated provider c) (User.findByEmail data email) w Q := by
  refine outcomes_bind (outcomes_bind (outcomes_call fun x w₁ hx => ?_))
  obtain ⟨hsem, rfl, -⟩ := hx
  have hdb : w₁.db = w.db := by
    rcases sem_cacheGet.mp hsem with ⟨-, rfl⟩ | ⟨-, rfl⟩ | ⟨e, he, -⟩
    · rfl
    · rfl
    · cases he
  refine outcomes_ret ?_
  rcases hv : w.cache .users (User.cacheIdx (data.toLowercase email)) with - | v
  · -- nothing is cached, and the row is cached now
    have hanswer : emailAnswer data w email =
        ((w₁.db .users).filter fun u => u.email == data.toLowercase email).head? := by
      rw [hdb]
      simp only [emailAnswer, hv]
    refine outcomes_ret (outcomes_bind (federated_fetchOne (fun u hu => ?_) fun hno => ?_))
    · refine outcomes_bind (outcomes_call fun x w₂ hx => ?_)
      obtain ⟨hsem, rfl, -⟩ := hx
      rcases sem_cachePut.mp hsem with ⟨-, rfl⟩ | ⟨e, he, -⟩
      · exact outcomes_ret (outcomes_ret (hsome u _ (hanswer.trans hu) hdb))
      · cases he
    · exact hnone _ _ (hanswer.trans hno) hdb
  · have hanswer : emailAnswer data w email = v.user? := by
      simp only [emailAnswer, hv]
    refine outcomes_bind (outcomes_okOr (fun u hu => ?_) fun hno => ?_)
    · exact outcomes_ret (outcomes_ret (hsome u _ (hanswer.trans hu) hdb))
    · exact hnone _ _ (hanswer.trans hno) hdb

theorem federated_findUser {Q : Except (Fault ErrorResponse) (Option User) → World → Prop}
    (hfound : ∀ found w₁, FoundUser data provider link w email uid found → w₁.db = w.db →
      Q (.ok found) w₁)
    (herror : ∀ e w₁, w₁.db = w.db → Q (.error e) w₁) :
    Outcomes (federated provider c) (findUser data provider (some link) email uid) w Q := by
  refine outcomes_bind (outcomes_tried (federated_fetchOne (fun u hu => ?_) fun hnone => ?_))
  · have hmem := List.mem_of_mem_head? hu
    simp only [List.mem_filter, Bool.and_eq_true, beq_iff_eq] at hmem
    exact outcomes_ret (hfound _ _ (.linked hmem.1 hmem.2) rfl)
  -- the identity is linked to nobody
  · have hno : ∀ v ∈ w.db .users, ¬ LinkedTo provider uid v := by
      intro v hv hlink
      have hempty := List.head?_eq_none_iff.mp hnone
      refine absurd (List.mem_filter.mpr ⟨hv, ?_⟩) (hempty ▸ List.not_mem_nil)
      simp [hlink.1, hlink.2]
    refine outcomes_bind (outcomes_tried (federated_findByEmail
      (fun copy w₁ hcopy hdb => ?_) fun e w₁ hcopy hdb => ?_))
    · refine outcomes_bind (outcomes_answer (fun u hu => ?_) fun e _ => herror _ _ hdb)
      exact outcomes_ret (hfound _ _ (.byEmail hno hcopy hu) hdb)
    · exact outcomes_ret (hfound _ _ (.new hno hcopy) hdb)

/-- A part of the request that does not write users comes first. -/
theorem outcomes_aside {α β : Type} {p : M ErrorResponse α} {ts : List Table}
    {cs : List (CacheName × Slot)} {f : α → M ErrorResponse β}
    {Q : Except (Fault ErrorResponse) β → World → Prop} (hp : Touches ts cs p)
    (hts : Table.users ∉ ts) (herror : ∀ e w₁, w₁.db .users = w.db .users → Q (.error e) w₁)
    (hf : ∀ a w₁, w₁.db .users = w.db .users → Outcomes sem (f a) w₁ Q) :
    Outcomes sem (p >>= f) w Q := by
  refine outcomes_bind fun r w₁ hx => ?_
  have hrows : w₁.db .users = w.db .users := (hp.frame hx).db .users hts
  rcases r with e | a
  · exact herror e w₁ hrows
  · exact hf a w₁ hrows

/-- The row of the user is replaced, at the latest when `save` succeeds. -/
theorem outcomes_save (u : User) (old : Option String) :
    Outcomes sem (u.save data old) w fun r w' =>
      (w'.db .users = w.db .users ∨ w'.db .users = u.replaced (w.db .users)) ∧
      ∀ a, r = .ok a → w'.db .users = u.replaced (w.db .users) := by
  have hfree : Touches [] [(.users, .user)] (runIf (old.isSome = true) (User.isEmailFree data u.email)) :=
    touches_runIf (User.isEmailFree_touches data u.email)
  refine outcomes_aside hfree (by simp) (fun e w₁ hw₁ => ⟨.inl hw₁, by simp⟩) fun _ w₁ hw₁ => ?_
  refine outcomes_bind (outcomes_executeAll (fun e => ⟨.inl hw₁, by simp⟩) fun r db hdb => ?_)
  have hnew : db .users = u.replaced (w.db .users) := by
    rw [saveStmt_users hdb, hw₁]
  rcases r with e | a
  · exact ⟨.inr hnew, by simp⟩
  · intro r' w₂ hx
    have hrows : w₂.db .users = db .users := ((u.saveCached_touches old).frame hx).db .users (by simp)
    exact ⟨.inr (hrows.trans hnew), fun _ _ => hrows.trans hnew⟩

theorem outcomes_insert (n : User) :
    Outcomes sem (User.insert n) w fun r w' =>
      ∀ u, r = .ok u → (w'.db .users).length = (w.db .users).length + 1 := by
  refine outcomes_bind (outcomes_executeAll (by simp) fun r db hdb => ?_)
  rcases r with e | a
  · simp
  have hlen : (db .users).length = (w.db .users).length + 1 := by
    simp only [applyAll, DbWrite.apply] at hdb
    split at hdb
    · cases hdb
    · cases hdb
      simp
  have hcount : Touches [] [(.c12hr, .count)] User.countInc :=
    touches_bind User.count_touches fun _ => touches_cachePut (by simp [CacheVal.slot]) _
  refine outcomes_aside hcount (by simp) (by simp) fun _ w₁ hw₁ => outcomes_ret fun _ _ => ?_
  rw [hw₁]
  exact hlen

theorem outcomes_createUser (admin : Option Bool) (now : Int) :
    Outcomes sem (c.createUser provider email uid admin now) w fun r w' =>
      ∀ u, r = .ok u → (w'.db .users).length = (w.db .users).length + 1 := by
  have hid : Touches [] [] (newStoreId : M ErrorResponse String) := touches_getRand 24
  have hnow : Touches [] [] (unixTimestamp : M ErrorResponse Int) := touches_unixTimestamp
  refine outcomes_aside hid (by simp) (by simp) fun id w₁ hw₁ => ?_
  refine outcomes_aside hnow (by simp) (by simp) fun createdAt w₂ hw₂ => ?_
  refine outcomes_mono (outcomes_insert _) fun r w₃ hw₃ u hu => ?_
  rw [← hw₁, ← hw₂]
  exact hw₃ u hu

section Relinked

variable {id pid : String} {uid : Option String}

theorem Relinked.of_rows (h : w'.db .users = w.db .users) : Relinked id pid uid w w' :=
  ⟨fun u => u, by rw [h, List.map_id'], fun u _ => ⟨rfl, .inl ⟨rfl, rfl⟩⟩⟩

theorem Relinked.length (h : Relinked id pid uid w w') :
    (w'.db .users).length = (w.db .users).length := by
  obtain ⟨g, hg, -⟩ := h
  rw [hg, List.length_map]

theorem Relinked.right (h : Relinked id pid uid w w') {u : User} (hu : u ∈ w.db .users) :
    ∃ v ∈ w'.db .users, v.id = u.id ∧ Relink id pid uid u v := by
  obtain ⟨g, hg, hrel⟩ := h
  exact ⟨g u, hg ▸ List.mem_map_of_mem hu, hrel u hu⟩

theorem Relinked.left (h : Relinked id pid uid w w') {v : User} (hv : v ∈ w'.db .users) :
    ∃ u ∈ w.db .users, v.id = u.id ∧ Relink id pid uid u v := by
  obtain ⟨g, hg, hrel⟩ := h
  rw [hg] at hv
  obtain ⟨u, hu, rfl⟩ := List.mem_map.mp hv
  exact ⟨u, hu, hrel u hu⟩

end Relinked

/-- The rows in which a user with the link has been replaced. -/
theorem Relinked.of_replaced {u : User} (h : w'.db .users = u.replaced (w.db .users))
    (hlink : LinkedTo provider uid u) : Relinked u.id provider.id (some uid) w w' := by
  refine ⟨_, h, fun r _ => ?_⟩
  by_cases hid : r.id = u.id
  · simp only [hid, beq_self_eq_true, if_true]
    exact ⟨trivial, .inr ⟨rfl, hlink⟩⟩
  · simp only [beq_iff_eq, hid, if_false]
    exact ⟨trivial, .inl ⟨rfl, rfl⟩⟩

/-- The link of the account is set, and nothing else is, when the user has been found by its link
or has just been linked. -/
theorem outcomes_updateUser {user : User} (admin : Option Bool) (now : Int)
    (hlink : LinkedTo provider uid user) :
    Outcomes sem (c.updateUser data provider email uid admin now user) w fun r w' =>
      Relinked user.id provider.id (some uid) w w' ∧
      ∀ u, r = .ok u → ∀ v ∈ w'.db .users, v.id = user.id → LinkedTo provider uid v := by
  have hno : forbiddenError provider uid user = none := by
    simp [forbiddenError, hlink.1, hlink.2]
  simp only [updateUser, hno]
  refine outcomes_bind (outcomes_mono (outcomes_save _ _) fun r w₁ hw₁ => ?_)
  have hrelinked : Relinked user.id provider.id (some uid) w w₁ := by
    rcases hw₁.1 with h | h
    · exact .of_rows h
    · have hnew := Relinked.of_replaced h (by exact hlink)
      exact hnew
  rcases r with e | a
  · exact ⟨hrelinked, by simp⟩
  · refine outcomes_ret ⟨hrelinked, fun u _ v hv hid => ?_⟩
    rw [hw₁.2 a rfl] at hv
    obtain ⟨r, hr, rfl⟩ := List.mem_map.mp hv
    by_cases hrow : r.id = user.id
    · simp only [hrow, beq_self_eq_true, if_true]
      exact hlink
    · simp [hrow] at hid

/-- What has happened to the users, and if the request is `done` what must have happened. -/
inductive Validated (data : AppState) (provider : AuthProvider) (link : AuthProviderLinkCookie)
    (w : World) (email uid : String) (done : Prop) (w' : World) : Prop
  | rejected (hrows : w'.db .users = w.db .users) (hno : ¬ done)
  | updated {user : User} (hfound : FoundUser data provider link w email uid (some user))
      (hlinks : Relinked user.id provider.id (some uid) w w')
      (hdone : done → ∀ v ∈ w'.db .users, v.id = user.id → LinkedTo provider uid v)
  | created (hfound : FoundUser data provider link w email uid none)
      (hdone : done → (w'.db .users).length = (w.db .users).length + 1)

theorem FoundUser.linkedTo {user : User}
    (h : FoundUser data provider link w email uid (some user)) : LinkedTo provider uid user := by
  cases h with
  | linked _ hlink => exact hlink
  | byEmail _ _ hu =>
      obtain ⟨-, -, -, -, -, rfl⟩ := linkUser_ok hu
      exact ⟨rfl, rfl⟩

theorem Validated.of_rows {done done' : Prop} (h : Validated data provider link w email uid done w₁)
    (hrows : w'.db .users = w₁.db .users) (hdone : done' → done) :
    Validated data provider link w email uid done' w' := by
  cases h with
  | rejected hsame hno => exact .rejected (hrows.trans hsame) fun hd => hno (hdone hd)
  | updated hfound hlinks hlinked =>
      refine .updated hfound ?_ fun hd => ?_
      · unfold Relinked
        rw [hrows]
        exact hlinks
      · rw [hrows]
        exact hlinked (hdone hd)
  | created hfound hlen =>
      refine .created hfound fun hd => ?_
      rw [hrows]
      exact hlen (hdone hd)

theorem outcomes_loginUser {found : Option User} (admin : Option Bool) (now : Int)
    (hfound : FoundUser data provider link w email uid found) (hrows : w₁.db .users = w.db .users) :
    Outcomes sem (c.loginUser data provider email uid admin now found) w₁ fun r w' =>
      Validated data provider link w email uid (∃ u, r = .ok u) w' := by
  rcases found with - | user
  · refine outcomes_mono (outcomes_createUser admin now) fun r w' h => .created hfound ?_
    rintro ⟨u, hu⟩
    rw [← hrows]
    exact h u hu
  · refine outcomes_mono (outcomes_updateUser admin now hfound.linkedTo) fun r w' h => ?_
    refine .updated hfound ?_ ?_
    · have hlinks := h.1
      unfold Relinked at hlinks ⊢
      rw [← hrows]
      exact hlinks
    · rintro ⟨u, hu⟩
      exact h.2 u hu

theorem outcomes_federated {α : Type} {p : M ErrorResponse α}
    {Q : Except (Fault ErrorResponse) α → World → Prop} (h : Outcomes sem p w Q) :
    Outcomes (federated provider c) p w Q :=
  fun r w' hx => h r w' (hx.mono fun _ _ _ _ hs => hs.1)

theorem federated_validateUpdateUser (hemail : c.email = some email)
    (huid : c.userIdOf = some uid) :
    Outcomes (federated provider c) (c.validateUpdateUser data provider (some link)) w fun r w' =>
      Validated data provider link w email uid (∃ x, r = .ok x) w' := by
  refine outcomes_bind (outcomes_okOr (fun email' he => ?_) fun _ => .rejected rfl (by simp))
  refine outcomes_bind (outcomes_okOr (fun uid' hu => ?_) fun _ => .rejected rfl (by simp))
  obtain rfl : email' = email := Option.some.inj (he.symm.trans hemail)
  obtain rfl : uid' = uid := Option.some.inj (hu.symm.trans huid)
  refine outcomes_bind (federated_findUser (fun found w₁ hfound hdb => ?_) fun e w₁ hdb =>
    .rejected (by rw [hdb]) (by simp))
  refine outcomes_federated ?_
  -- nothing else but `loginUser` writes users
  have hrejected : ∀ {α : Type} {e : Fault ErrorResponse} {w₂ : World},
      w₂.db .users = w₁.db .users → Validated data provider link w email' uid'
        (∃ x : α, (.error e : Except (Fault ErrorResponse) α) = .ok x) w₂ :=
    fun h => .rejected (h.trans (by rw [hdb])) (by simp)
  have hanswer : ∀ x : Except ErrorResponse (Option Bool), Touches [] [] (answer x) :=
    fun x => touches_answer x
  have hnow : Touches [] [] (unixTimestamp : M ErrorResponse Int) := touches_unixTimestamp
  refine outcomes_aside (hanswer _) (by simp) (fun _ _ h => hrejected h) fun admin w₂ h₂ => ?_
  refine outcomes_aside (hanswer _) (by simp) (fun _ _ h => hrejected (h.trans h₂)) fun mfa w₃ h₃ => ?_
  refine outcomes_aside hnow (by simp) (fun _ _ h => hrejected (h.trans (h₃.trans h₂)))
    fun now w₄ h₄ => ?_
  have hrows : w₄.db .users = w.db .users := by rw [h₄, h₃, h₂, hdb]
  refine outcomes_bind (outcomes_mono (outcomes_loginUser admin now hfound hrows) fun r w₅ h₅ => ?_)
  rcases r with e | user
  · exact h₅.of_rows rfl (by simp)
  · refine outcomes_aside (saveValues_touches user.id) (by simp) (fun e w₆ h₆ =>
      h₅.of_rows h₆ (by simp)) fun _ w₆ h₆ => ?_
    exact outcomes_ret (h₅.of_rows h₆ fun _ => ⟨user, rfl⟩)

theorem federated_federate (hemail : c.email = some email) (huid : c.userIdOf = some uid) :
    Outcomes (federated provider c) (federate data c provider link) w fun r w' =>
      Validated data provider link w email uid (∃ step, r = .ok step) w' ∧
      ∀ step, r = .ok step → step = .providerLink := by
  refine outcomes_bind (outcomes_mono (federated_validateUpdateUser hemail huid) fun r w₁ h₁ => ?_)
  rcases r with e | ⟨user, mfa⟩
  · exact ⟨h₁.of_rows rfl (by simp), by simp⟩
  have hchecks : Touches [] [] user.checkExpired := by
    unfold User.checkExpired
    split
    · exact touches_ret _
    · exact touches_bind touches_unixTimestamp fun _ => touches_throwIf _ _
  have henabled : Touches [] [] user.checkEnabled := touches_throwIf _ _
  refine outcomes_federated (outcomes_aside henabled (by simp) (fun e w₂ h₂ =>
    ⟨h₁.of_rows h₂ (by simp), by simp⟩) fun _ w₂ h₂ => ?_)
  refine outcomes_aside hchecks (by simp) (fun e w₃ h₃ =>
    ⟨h₁.of_rows (h₃.trans h₂) (by simp), by simp⟩) fun _ w₃ h₃ => ?_
  refine outcomes_ret ⟨h₁.of_rows (h₃.trans h₂) fun _ => ⟨(user, mfa), rfl⟩, fun step hs => ?_⟩
  cases hs
  rfl

/-- Claims without an e-mail or without an id are rejected. -/
theorem federated_incomplete (h : c.email = none ∨ c.userIdOf = none) :
    Outcomes (federated provider c) (federate data c provider link) w fun r w' =>
      w' = w ∧ ∀ step, r ≠ .ok step := by
  refine outcomes_bind (outcomes_bind (outcomes_okOr (fun email he => ?_) fun _ => ⟨rfl, by simp⟩))
  refine outcomes_bind (outcomes_okOr (fun uid hu => ?_) fun _ => ⟨rfl, by simp⟩)
  rcases h with h | h
  · rw [h] at he
    cases he
  · rw [h] at hu
    cases hu

theorem checkCallback_touches (data : AppState) (req : HttpRequest)
    (payload : ProviderCallbackRequest) : Touches [] [] (checkCallback data req payload) := by
  have hfail : ∀ (id : String) (e : ErrorResponse), Touches [] []
      (do AuthProviderCallback.delete id; fail (.err e) : M ErrorResponse AuthProviderCallback) :=
    fun id e => touches_bind (touches_cacheDel _ _) fun _ => touches_fail _
  refine touches_bind (touches_okOr _ _) fun cookie => touches_bind (touches_answer _) fun id => ?_
  split
  · exact hfail _ _
  · refine touches_bind (touches_bind (touches_cacheGet _ _ _) fun res => touches_okOr _ _)
      fun slf => ?_
    split
    · exact hfail _ _
    · split
      · exact hfail _ _
      · exact touches_ret _

theorem checkCallback_spares (data : AppState) (req : HttpRequest)
    (payload : ProviderCallbackRequest) : Spares .users (checkCallback data req payload) := by
  have hfail : ∀ (id : String) (e : ErrorResponse), Spares .users
      (do AuthProviderCallback.delete id; fail (.err e) : M ErrorResponse AuthProviderCallback) :=
    fun id e => spares_bind (spares_cacheDel (by decide) _) fun _ => trivial
  refine spares_bind (spares_okOr _ _) fun cookie => spares_bind (spares_answer _) fun id => ?_
  split
  · exact hfail _ _
  · refine spares_bind (spares_bind (spares_cacheGet (by decide) _ _) fun res => spares_okOr _ _)
      fun slf => ?_
    split
    · exact hfail _ _
    · split
      · exact hfail _ _
      · trivial

theorem OwnIdentity.of_eq (hdb : w'.db .users = w.db .users)
    (hcache : w'.cache .users = w.cache .users)
    (h : OwnIdentity data provider link w email uid) : OwnIdentity data provider link w' email uid where
  own := hdb ▸ h.own
  known hno := by
    have hanswer : emailAnswer data w' email = emailAnswer data w email := by
      simp only [emailAnswer, hcache, hdb]
    rw [hanswer, hdb]
    exact h.known (hdb ▸ hno)

theorem AccountLinked.of_rejected {uid : Option String} (hrows : w'.db .users = w.db .users)
    (hno : ∀ step, r ≠ .ok step) :
    AccountLinked provider link uid w r w' where
  links := .of_rows hrows
  answered step hr := absurd hr (hno step)

theorem Validated.accountLinked
    (h : Validated data provider link w email uid (∃ step, r = .ok step) w')
    (hstep : ∀ step, r = .ok step → step = .providerLink)
    (hown : OwnIdentity data provider link w email uid) :
    AccountLinked provider link (some uid) w r w' := by
  cases h with
  | rejected hrows hno => exact .of_rejected hrows fun step hr => hno ⟨step, hr⟩
  | @updated user hfound hlinks hdone =>
      -- the user that has been found is that of the cookie, and it has a row
      obtain ⟨hid, hpid, hrow⟩ : user.id = link.userId ∧ provider.id = link.providerId ∧
          ∃ u ∈ w.db .users, u.id = user.id := by
        cases hfound with
        | linked hrow hlink =>
            obtain ⟨hid, hpid⟩ := hown.own user hrow hlink
            exact ⟨hid, hpid, user, hrow, rfl⟩
        | byEmail hnone hcopy hu =>
            obtain ⟨l, hl, hpid, hid, -, rfl⟩ := linkUser_ok hu
            cases hl
            obtain ⟨copy, hcopy', hrow⟩ := hown.known hnone
            rw [hcopy] at hcopy'
            cases hcopy'
            exact ⟨hid.symm, hpid.symm, hrow⟩
      rw [hid, hpid] at hlinks
      refine ⟨hlinks, fun step hr => ⟨hstep step hr, hpid, uid, rfl, ?_, fun v hv hlink => ?_⟩⟩
      · obtain ⟨u, hu, he⟩ := hrow
        obtain ⟨v, hv, hvid, -⟩ := hlinks.right hu
        refine ⟨v, hv, hvid.trans (he.trans hid), hdone ⟨step, hr⟩ v hv (hvid.trans he)⟩
      · obtain ⟨u, hu, hvid, hsame | ⟨he, -⟩⟩ := hlinks.left hv
        · have hold : LinkedTo provider uid u := ⟨hsame.1 ▸ hlink.1, hsame.2 ▸ hlink.2⟩
          exact hvid.trans (hown.own u hu hold).1
        · exact he
  | created hfound _ =>
      cases hfound with
      | new hnone hcopy =>
          obtain ⟨copy, hcopy', -⟩ := hown.known hnone
          rw [hcopy] at hcopy'
          cases hcopy'

/-- The condition is necessary when the request is answered. -/
theorem Validated.ownIdentity {step : AuthStep}
    (h : Validated data provider link w email uid (∃ step, r = .ok step) w') (hr : r = .ok step)
    (hlinked : AccountLinked provider link (some uid) w r w') :
    OwnIdentity data provider link w email uid := by
  obtain ⟨-, hpid, id, hid, ⟨v₀, hv₀, hv₀id, -⟩, honly⟩ := hlinked.answered step hr
  cases hid
  cases h with
  | rejected _ hno => exact absurd ⟨step, hr⟩ hno
  | @updated user hfound hlinks hdone =>
      refine ⟨fun u hu hlink => ⟨?_, hpid⟩, fun hnone => ?_⟩
      · -- a row with the link still has it
        obtain ⟨v, hv, hvid, hrel⟩ := hlinks.right hu
        rw [← hvid]
        refine honly v hv ?_
        rcases hrel with hsame | ⟨-, hlinked⟩
        · exact ⟨hsame.1.trans hlink.1, hsame.2.trans hlink.2⟩
        · exact hlinked
      · cases hfound with
        | linked hrow hlink => exact absurd hlink (hnone user hrow)
        | byEmail _ hcopy hu =>
            obtain ⟨l, hl, -, huid, -, rfl⟩ := linkUser_ok hu
            cases hl
            obtain ⟨u, hu, hvid, -⟩ := hlinks.left hv₀
            exact ⟨_, hcopy, u, hu, hvid.symm.trans (hv₀id.trans huid)⟩
  | created _ hlen =>
      have hsame := hlinked.links.length
      have hmore := hlen ⟨step, hr⟩
      omega

theorem AccountLinked.of_eq {uid : Option String} (hrows : w₁.db .users = w.db .users) :
    AccountLinked provider link uid w₁ r w' ↔ AccountLinked provider link uid w r w' := by
  constructor
  · rintro ⟨hlinks, hanswered⟩
    unfold Relinked at hlinks
    exact ⟨by rw [hrows] at hlinks; exact hlinks, hanswered⟩
  · rintro ⟨hlinks, hanswered⟩
    unfold Relinked at hlinks
    exact ⟨by unfold Relinked; rw [hrows]; exact hlinks, hanswered⟩

/-- When a request with a link cookie concerns the user of the cookie only. -/
def LinkCondition (data : AppState) (c : AuthProviderIdClaims) (provider : AuthProvider)
    (link : AuthProviderLinkCookie) (w : World) : Prop :=
  ∀ email uid, c.email = some email → c.userIdOf = some uid →
    OwnIdentity data provider link w email uid

/-- **A request with a link cookie links the user of the cookie** to the provider of the
cookie, and does nothing else to the accounts, if the claims are those of an identity of this user
or of nobody, and of a known e-mail; and an answer to other claims concerns somebody else. -/
theorem link_respected {req : HttpRequest} {payload : ProviderCallbackRequest} {session : Session}
    {r : Except (Fault ErrorResponse) AuthStep} (hcookie : linkCookieOf data req = some link)
    (hx : Exec (federated provider c) (loginFinish data req payload session) w r w') :
    (LinkCondition data c provider link w → AccountLinked provider link c.userIdOf w r w') ∧
    ∀ step, r = .ok step →
      (AccountLinked provider link c.userIdOf w r w' ↔ LinkCondition data c provider link w) := by
  have hrejected : ∀ {e : Fault ErrorResponse}, w'.db .users = w.db .users →
      (LinkCondition data c provider link w →
        AccountLinked provider link c.userIdOf w (.error e) w') ∧
      ∀ step, (.error e : Except (Fault ErrorResponse) AuthStep) = .ok step →
        (AccountLinked provider link c.userIdOf w (.error e) w' ↔
          LinkCondition data c provider link w) :=
    fun hrows => ⟨fun _ => .of_rejected hrows (by simp), by simp⟩
  rw [loginFinish_link hcookie] at hx
  -- the callback and the provider are looked up without a look at the users
  rcases exec_bind.mp hx with ⟨e, rfl, hcheck⟩ | ⟨slf, w₁, hcheck, hx⟩
  · exact hrejected (((checkCallback_touches ..).frame (hcheck.mono fun _ _ _ _ hs => hs.1)).db _
      (by simp))
  have hcheck := hcheck.mono fun _ _ _ _ hs => hs.1
  have hrows₁ := ((checkCallback_touches ..).frame hcheck).db .users (by simp)
  have hcache₁ := (checkCallback_spares ..).cache hcheck
  have hfind : Touches [] [(.c12hr, .authProvider)] (AuthProvider.find slf.providerId) :=
    touches_cached (touches_fetchOne _ _) fun _ => by simp [CacheVal.slot]
  have hspares : Spares .users (AuthProvider.find slf.providerId) :=
    spares_cached (by decide) (spares_fetchOne _ _)
  rcases exec_bind.mp hx with ⟨e, rfl, hx₂⟩ | ⟨provider', w₂, hx₂, hx⟩
  · have hrows := (hfind.frame (hx₂.mono fun _ _ _ _ hs => hs.1)).db .users (by simp)
    exact hrejected (hrows.trans hrows₁)
  have hx₂ := hx₂.mono fun _ _ _ _ hs => hs.1
  have hrows₂ : w₂.db .users = w.db .users := ((hfind.frame hx₂).db .users (by simp)).trans hrows₁
  have hcache₂ : w₂.cache .users = w.cache .users := (hspares.cache hx₂).trans hcache₁
  have hasks : Touches [] [] (call (.exchangeUpstreamCode provider' payload.code) answer :
      M ErrorResponse AuthProviderIdClaims) := ⟨trivial, fun x => touches_answer x⟩
  have hspares : Spares .users (call (.exchangeUpstreamCode provider' payload.code) answer :
      M ErrorResponse AuthProviderIdClaims) := ⟨trivial, fun x => spares_answer x⟩
  rcases exec_bind.mp hx with ⟨e, rfl, hx₃⟩ | ⟨c', w₃, hx₃, hx⟩
  · have hrows := (hasks.frame (hx₃.mono fun _ _ _ _ hs => hs.1)).db .users (by simp)
    exact hrejected (hrows.trans hrows₂)
  have hsem₃ := hx₃.mono fun _ _ _ _ hs => hs.1
  have hrows₃ : w₃.db .users = w.db .users := ((hasks.frame hsem₃).db .users (by simp)).trans hrows₂
  have hcache₃ : w₃.cache .users = w.cache .users := (hspares.cache hsem₃).trans hcache₂
  -- the claims are those of the provider
  obtain ⟨rfl, rfl⟩ : provider' = provider ∧ c' = c := by
    obtain ⟨x, w₄, ⟨-, -, hanswers⟩, ha⟩ := hx₃
    exact hanswers c' (exec_answer.mp ha).1
  rw [← AccountLinked.of_eq hrows₃]
  have hcond : LinkCondition data c' provider' link w ↔ LinkCondition data c' provider' link w₃ :=
    ⟨fun h email uid he hu => (h email uid he hu).of_eq hrows₃ hcache₃,
      fun h email uid he hu => (h email uid he hu).of_eq hrows₃.symm hcache₃.symm⟩
  rw [hcond]
  rcases hemail : c'.email with - | email
  · obtain ⟨rfl, hno⟩ := federated_incomplete (.inl hemail) r w' hx
    exact ⟨fun _ => .of_rejected rfl hno, fun step hr => absurd hr (hno step)⟩
  rcases huid : c'.userIdOf with - | uid
  · obtain ⟨rfl, hno⟩ := federated_incomplete (.inr huid) r w' hx
    exact ⟨fun _ => .of_rejected rfl hno, fun step hr => absurd hr (hno step)⟩
  obtain ⟨hvalid, hstep⟩ := federated_federate hemail huid r w' hx
  have hown : LinkCondition data c' provider' link w₃ ↔
      OwnIdentity data provider' link w₃ email uid := by
    refine ⟨fun h => h email uid hemail huid, fun h email' uid' he hu => ?_⟩
    rw [hemail] at he
    rw [huid] at hu
    cases he
    cases hu
    exact h
  rw [hown]
  exact ⟨hvalid.accountLinked hstep,
    fun step hr => ⟨hvalid.ownIdentity hr, hvalid.accountLinked hstep⟩⟩

end Linked

/-- The outcome of an operation under a choice, the users being read as they are stored. -/
def Op.runFederated (provider : AuthProvider) (c : AuthProviderIdClaims) (ch : Choice) (o : Op)
    (w : World) : Option (o.Res × World) :=
  match o, ch with
  | .select .users p, .ok => some (.ok ((w.db .users).filter p), w)
  | .select .users _, _ => none
  | .cacheGet .users k, .ok => some (.ok (w.cache .users k), w)
  | .cacheGet .users _, _ => none
  | .cachePut .users k v, .ok => some (.ok (), w.put .users k v)
  | .cachePut .users _ _, _ => none
  | .exchangeUpstreamCode p _, .claims c' =>
      if p = provider ∧ c' = c then some (.ok c', w) else none
  | o, ch => Op.run ch o w

theorem federated_of_run {provider : AuthProvider} {c : AuthProviderIdClaims} {o : Op} {w w' : World}
    {x : o.Res} (h : Pool.semOf (Op.runFederated provider c) o w x w') :
    federated provider c o w x w' := by
  obtain ⟨ch, hch⟩ := h
  cases o with
  | select t p =>
      cases t with
      | users =>
          cases ch with
          | ok => cases hch; exact ⟨⟨.ok, rfl⟩, rfl, trivial⟩
          | _ => cases hch
      | _ => exact ⟨⟨ch, hch⟩, trivial, trivial⟩
  | cacheGet n k =>
      cases n with
      | users =>
          cases ch with
          | ok => cases hch; exact ⟨⟨.ok, rfl⟩, rfl, trivial⟩
          | _ => cases hch
      | _ => exact ⟨⟨ch, hch⟩, trivial, trivial⟩
  | cachePut n k v =>
      cases n with
      | users =>
          cases ch with
          | ok => cases hch; exact ⟨⟨.ok, rfl⟩, rfl, trivial⟩
          | _ => cases hch
      | _ => exact ⟨⟨ch, hch⟩, trivial, trivial⟩
  | exchangeUpstreamCode p code =>
      cases ch with
      | claims c' =>
          simp only [Op.runFederated] at hch
          split at hch
          · next hp =>
              cases hch
              refine ⟨⟨.claims c', rfl⟩, trivial, fun c₁ hc₁ => ?_⟩
              cases hc₁
              exact hp
          · cases hch
      | fail e applied => cases hch; exact ⟨⟨.fail e applied, rfl⟩, trivial, by simp [AnswersWith]⟩
      | _ => cases hch
  | _ => exact ⟨⟨ch, hch⟩, trivial, trivial⟩

/-- The libraries, with cookies in the clear. -/
def federationState : AppState :=
  { sampleState with decodeLinkCookie := fun s => some ("provider", s, s ++ "@localhost") }

/-- A login with the provider has been started. -/
def callbackWorld (users : List User) : World :=
  let w := federationWorld users []
  (w.put .authProviderCallback "callback"
    (.authProviderCallback { (default : AuthProviderCallback) with
      callbackId := "callback", providerId := "provider" })).put .c12hr
    (AuthProvider.cacheIdx "provider") (.authProvider sampleProvider)

/-- Its end, with the link cookie of alice. -/
def linkRequest : HttpRequest :=
  { (default : HttpRequest) with
    upstreamCallbackCookie := some "callback"
    providerLinkCookie := some "alice" }

def linkPayload : ProviderCallbackRequest :=
  { (default : ProviderCallbackRequest) with state := "callback" }

theorem link_respected_alice : ∃ r w',
    Exec (federated sampleProvider sampleClaims)
      (loginFinish federationState linkRequest linkPayload default) (callbackWorld [sampleUser])
      r w' ∧ r = .ok .providerLink ∧
    AccountLinked sampleProvider sampleLink (some "uid") (callbackWorld [sampleUser]) r w' := by
  obtain ⟨r, w', hx, hr⟩ := Pool.exists_exec_of_choices
    (Op.runFederated sampleProvider sampleClaims)
    (loginFinish federationState linkRequest linkPayload default)
    [.ok, .ok, .claims sampleClaims, .ok, .ok, .ok, .ok, .time 0, .ok, .ok, .ok, .ok, .ok, .ok]
    (callbackWorld [sampleUser]) (fun r _ => r.toOption == some .providerLink) (by decide +kernel)
  have hx := hx.mono fun _ _ _ _ => federated_of_run
  have hcond : LinkCondition federationState sampleClaims sampleProvider sampleLink
      (callbackWorld [sampleUser]) := by
    rintro email uid ⟨⟩ ⟨⟩
    refine ⟨fun u hu hlink => ?_, fun _ => ⟨sampleUser, by decide +kernel, ?_⟩⟩
    · rw [List.mem_singleton.mp hu] at hlink
      cases hlink.1
    · exact ⟨sampleUser, List.mem_singleton_self _, rfl⟩
  rcases r with e | step
  · cases hr
  cases step with
  | providerLink => exact ⟨_, w', hx, rfl, (link_respected (by decide +kernel) hx).1 hcond⟩
  | _ => cases hr

/-- bob, who is linked already. -/
def linkedBob : User :=
  { sampleUser with
    id := "bob", email := "bob@localhost"
    authProviderId := some "provider", federationUid := some "uid" }

/-- With the link cookie of alice, bob logs in at the provider: the answer is that an account has
been linked, and alice is linked to nothing. -/
theorem linked_somebody_else :
    ¬ ∀ (data : AppState) (req : HttpRequest) (payload : ProviderCallbackRequest)
        (session : Session) (c : AuthProviderIdClaims) (provider : AuthProvider)
        (link : AuthProviderLinkCookie) (w w' : World) (r : Except (Fault ErrorResponse) AuthStep),
      linkCookieOf data req = some link →
      Exec (federated provider c) (loginFinish data req payload session) w r w' →
        AccountLinked provider link c.userIdOf w r w' := by
  intro hall
  obtain ⟨r, w', hx, hr⟩ := Pool.exists_exec_of_choices
    (Op.runFederated sampleProvider { sampleClaims with email := some "bob@localhost" })
    (loginFinish federationState linkRequest linkPayload default)
    [.ok, .ok, .claims { sampleClaims with email := some "bob@localhost" }, .ok, .time 0, .ok, .ok,
      .ok, .ok, .ok, .ok] (callbackWorld [sampleUser, linkedBob])
    (fun r w' => r.toOption == some .providerLink &&
      (w'.db .users).all fun u => u.id != "alice" || u.authProviderId == none) (by decide +kernel)
  have hlinked := hall federationState _ _ _ _ sampleProvider sampleLink _ w' r (by decide +kernel)
    (hx.mono fun _ _ _ _ => federated_of_run)
  rcases r with e | step
  · cases hr
  obtain ⟨-, -, uid, -, ⟨v, hv, hid, hlink⟩, -⟩ := hlinked.answered step rfl
  simp only [Bool.and_eq_true, List.all_eq_true, Bool.or_eq_true, bne_iff_ne, beq_iff_eq] at hr
  rcases hr.2 v hv with hno | hno
  · exact hno hid
  · cases hno.symm.trans hlink.1

end Rauthy
