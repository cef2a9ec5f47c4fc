/-
Rauthy/QuietSteps.lean

What a request does beside the logins: it creates neither a code nor a ceremony, a list of
passkeys that it caches is one that it has selected, and a session that it writes as
authenticated is a copy of one that it has read.

Main results: the lemmas of the namespace `QuietStep`, one for each handler that keeps to that.
-/
import Rauthy.Handlers
import Rauthy.LinkRaces
import Rauthy.LoginDelay
import Rauthy.Passkeys

namespace Rauthy

variable {st : PasskeyAuthentication}

open Prog Pool Bincode

/-! ### Quiet operations -/

/-- The operation writes this session, to the table or to the cache. -/
inductive WritesSession (s : Session) : Op → Prop
  | insert {ss : List DbWrite} (h : .insert .sessions s ∈ ss) : WritesSession s (.execute ss)
  | upsert {ss : List DbWrite} (h : .upsert .sessions s ∈ ss) : WritesSession s (.execute ss)
  | put (k : String) : WritesSession s (.cachePut .sessions k (.session s))

/-- An update of the table authenticates no session, and leaves those that are to their users. -/
def UpdatesQuietly (o : Op) : Prop :=
  ∀ ss p f, o = .execute ss → .update .sessions p f ∈ ss →
    ∀ r : Session, (f r).state = .auth → r.state = .auth ∧ (f r).id = r.id ∧ (f r).userId = r.userId

/-- The operation has read the session. -/
inductive SessionRead (s : Session) : Seen Op Op.Res → Prop
  | cache (k : String) : SessionRead s ⟨.cacheGet .sessions k, .ok (some (.session s))⟩
  | table (p : Session → Bool) (rows : List Session) (h : s ∈ rows) :
      SessionRead s ⟨.select .sessions p, .ok rows⟩

/-- The session has been read, authenticated for the same user. -/
def CopiedSession (tr : List (Seen Op Op.Res)) (s : Session) : Prop :=
  ∃ s₀, (∃ v ∈ tr, SessionRead s₀ v) ∧ s₀.state = .auth ∧ s₀.id = s.id ∧ s₀.userId = s.userId

/-- What an operation promises that creates no code, no ceremony and no authenticated session. -/
structure QuietStep (tr : List (Seen Op Op.Res)) (s : Seen Op Op.Res) : Prop where
  puts : s.1.PutsNone [.authCodes, .webauthnData]
  lists : ∀ k ls, s.1 = .cachePut .webauthn k (.passkeys ls) → ∃ uid uv,
    k = PasskeyEntity.cacheIdxUser uid ∧ ⟨.select .passkeys (passkeyFilter uid uv), .ok ls⟩ ∈ tr
  sessions : ∀ s', WritesSession s' s.1 → s'.state = .auth → CopiedSession tr s'
  updates : UpdatesQuietly s.1

/-- Entries that a quiet operation may store, whatever they are. -/
def QuietSlots (cs : List (CacheName × Slot)) : Prop :=
  ∀ c ∈ cs, c.1 ≠ .authCodes ∧ c.1 ≠ .webauthnData ∧ c ≠ (.webauthn, .passkeys) ∧
    c ≠ (.sessions, .session)
theorem quietSlots_nil : QuietSlots [] := by simp [QuietSlots]

theorem CopiedSession.mono {tr tr' : List (Seen Op Op.Res)} {s : Session} (h : CopiedSession tr s)
    (htr : ∀ v ∈ tr, v ∈ tr') : CopiedSession tr' s := by
  obtain ⟨s₀, ⟨v, hv, hread⟩, h⟩ := h
  exact ⟨s₀, ⟨v, htr v hv, hread⟩, h⟩
section Facts

variable {tr : List (Seen Op Op.Res)}
  {u : User} {tr' : List (Seen Op Op.Res)}

theorem ReadsSession.read {sid : String} {s : Session} {v : Seen Op Op.Res}
    (h : ReadsSession sid s v) : SessionRead s v := by
  rcases h with rfl | ⟨-, p, rows, rfl⟩
  · exact .cache _
  · exact .table p _ List.mem_cons_self

theorem SessionOf.copied {req : HttpRequest} {s : Session} (h : SessionOf req s tr)
    (hauth : s.state = .auth) : CopiedSession tr s := by
  obtain ⟨sid, s₀, -, ⟨v, hv, hread⟩, lastSeen, rfl⟩ := h
  exact ⟨s₀, ⟨v, hv, hread.read⟩, hauth, rfl, rfl⟩

/-- The user that is found under an id. -/
def FindsUser (id : String) (u : User) (tr : List (Seen Op Op.Res)) : Prop :=
  ⟨.cacheGet .users (User.cacheIdx id), .ok (some (.user u))⟩ ∈ tr ∨
    u.id = id ∧ ∃ p rows, ⟨.select .users p, .ok (u :: rows)⟩ ∈ tr

theorem FindsUser.read {id : String} (h : FindsUser id u tr) : HasReadUser u tr := by
  rcases h with h | ⟨-, p, rows, h⟩
  · exact .inl ⟨_, h⟩
  · exact .inr ⟨p, rows, h⟩

theorem FindsUser.mono {id : String} (h : FindsUser id u tr) (htr : ∀ v ∈ tr, v ∈ tr') :
    FindsUser id u tr' := by
  rcases h with h | ⟨hid, p, rows, h⟩
  · exact .inl (htr _ h)
  · exact .inr ⟨hid, p, rows, htr _ h⟩

/-- The user has been read, or its row inserted, with the passkeys that it has now. -/
def MetAs (u : User) (tr : List (Seen Op Op.Res)) : Prop :=
  ∃ u₀, u₀.id = u.id ∧ u₀.webauthnUserId = u.webauthnUserId ∧
    (HasReadUser u₀ tr ∨ ∃ ss x, ⟨.execute ss, x⟩ ∈ tr ∧ .insert .users u₀ ∈ ss)

theorem HasReadUser.met (h : HasReadUser u tr) : MetAs u tr := ⟨u, rfl, rfl, .inl h⟩

theorem MetAs.mono (h : MetAs u tr) (htr : ∀ v ∈ tr, v ∈ tr') : MetAs u tr' := by
  obtain ⟨u₀, hid, hkey, h | ⟨ss, x, hmem, hins⟩⟩ := h
  · exact ⟨u₀, hid, hkey, .inl (h.mono htr)⟩
  · exact ⟨u₀, hid, hkey, .inr ⟨ss, x, htr _ hmem, hins⟩⟩

theorem MetAs.same {u' : User} (h : MetAs u tr) (hid : u'.id = u.id)
    (hkey : u'.webauthnUserId = u.webauthnUserId) : MetAs u' tr := by
  obtain ⟨u₀, hid₀, hkey₀, h⟩ := h
  exact ⟨u₀, hid₀.trans hid.symm, hkey₀.trans hkey.symm, h⟩

/-- What the lookup of a value of the shared cache has found. -/
def FoundData {α : Type} (dec : Dec α) (code : String) (d : α) (tr : List (Seen Op Op.Res)) : Prop :=
  ∃ b rest, ⟨.cacheGet .webauthnData code, .ok (some (.bytes b))⟩ ∈ tr ∧ dec b = some (d, rest)

theorem FoundData.mono {α : Type} {dec : Dec α} {code : String} {d : α}
    (h : FoundData dec code d tr) (htr : ∀ v ∈ tr, v ∈ tr') :
    FoundData dec code d tr' := by
  obtain ⟨b, rest, hmem, hdec⟩ := h
  exact ⟨b, rest, htr _ hmem, hdec⟩

/-- The data of a ceremony have been found, and its assertion has been accepted: it is one by a
credential of the challenge, and user-verified if the user that was read needs that. -/
def FinishedCeremony (data : AppState) (req : WebauthnAuthFinishRequest) (wd : WebauthnData)
    (tr : List (Seen Op Op.Res)) : Prop :=
  FoundData WebauthnData.decode req.code wd tr ∧
  ∃ st result u, data.authStateFromJson wd.authStateJson = some st ∧
    ⟨.finishPasskeyAuthentication req.data st, .ok result⟩ ∈ tr ∧ result.credId ∈ st.credentials ∧
    HasReadUser u tr ∧ (forceUv data u = true → result.userVerified = true)

theorem FinishedCeremony.mono {data : AppState} {req : WebauthnAuthFinishRequest}
    {wd : WebauthnData} (h : FinishedCeremony data req wd tr) (htr : ∀ v ∈ tr, v ∈ tr') :
    FinishedCeremony data req wd tr' := by
  obtain ⟨hdata, st, result, u, hst, hmem, hcred, hu, huv⟩ := h
  exact ⟨hdata.mono htr, st, result, u, hst, htr _ hmem, hcred, hu.mono htr, huv⟩

/-- If there is an id token, it is one for claims with this method of authentication. -/
def SignedWith (data : AppState) (amr : String) (ts : TokenSet) : Prop :=
  ∀ token, ts.idToken = some token →
    ∃ kp claims, data.signJwt kp (.id claims) = .ok token ∧ claims.custom.amr = [amr]

/-- The request carries an MFA cookie for this e-mail. -/
def CookieFor (data : AppState) (req : HttpRequest) (email : String) : Prop :=
  ∃ v c, req.mfaCookie = some v ∧ data.decodeMfaCookie v = .ok c ∧ c.email = email

end Facts

/-! The library accepts assertions only by credentials of the challenge -/

theorem possible_start {pks : List Passkey}
    (h : (Op.startPasskeyAuthentication pks).Possible (.ok st)) :
    st.credentials = pks.map Passkey.credId := by
  obtain ⟨w, w', c, h⟩ := h
  cases c with
  | rand s =>
      cases h
      rfl
  | _ => cases h

theorem possible_finish {cred : String} {result : AuthenticationResult}
    (h : (Op.finishPasskeyAuthentication cred st).Possible (.ok result)) :
    result.credId ∈ st.credentials := by
  obtain ⟨w, w', c, h⟩ := h
  cases c with
  | assertion r =>
      by_cases hr : r.credId ∈ st.credentials
      · simp only [Op.run, if_pos hr] at h
        cases h
        exact hr
      · simp only [Op.run, if_neg hr] at h
        cases h
  | _ => cases h

namespace QuietStep

variable {ε α : Type} {tr : List (Seen Op Op.Res)} {o : Op}
  {ts : List Table} {cs : List (CacheName × Slot)}
  {p : Prog Op Op.Res ε α}

theorem of_touches (ho : o.Touches ts cs) (hts : Table.sessions ∉ ts) (hcs : QuietSlots cs)
    (x : o.Res) :
    QuietStep tr ⟨o, x⟩ := by
  refine ⟨?_, ?_, ?_, ?_⟩
  · refine Op.PutsNone.of_touches ho fun c hc s hmem => ?_
    obtain ⟨hcode, hdata, -⟩ := hcs _ hmem
    rcases List.mem_cons.mp hc with rfl | hc
    · exact hcode rfl
    · exact hdata (List.mem_singleton.mp hc)
  · rintro k ls he
    obtain rfl : o = _ := he
    exact absurd rfl (hcs _ ho).2.2.1
  · rintro s' hw -
    cases hw with
    | insert h => exact absurd (ho _ h) hts
    | upsert h => exact absurd (ho _ h) hts
    | put k => exact absurd rfl (hcs _ ho).2.2.2
  · rintro ss p f he hmem
    obtain rfl : o = _ := he
    exact absurd (ho _ hmem) hts

theorem of_pure (ho : o.Touches [] []) (x : o.Res) : QuietStep tr ⟨o, x⟩ :=
  of_touches ho (by simp) quietSlots_nil x

theorem of_userPut {k : String} {u : User} (x : (Op.cachePut .users k (.user u)).Res) :
    QuietStep tr ⟨.cachePut .users k (.user u), x⟩ := by
  have ho : (Op.cachePut .users k (.user u)).Touches [] [(.users, .user)] := by
    simp [Op.Touches, CacheVal.slot]
  exact of_touches ho (by simp) (by simp [QuietSlots]) x

theorem sees_touches (hp : Touches ts cs p) (hts : Table.sessions ∉ ts) (hcs : QuietSlots cs) :
    Sees Op.Possible QuietStep p (fun _ _ => True) tr :=
  sees_of_within hp fun _ ho _ x _ => of_touches ho hts hcs x

theorem sees_pure (hp : Touches [] [] p) :
    Sees Op.Possible QuietStep p (fun _ _ => True) tr :=
  sees_touches hp (by simp) (by simp [QuietSlots])

theorem allows (hts : Table.sessions ∉ ts) (hcs : QuietSlots cs) : Allows QuietStep ts cs :=
  fun _ ho _ _ x => of_touches ho hts hcs x
/-! Sessions -/

/-- A session is written that is a copy, as far as it is authenticated. -/
theorem sees_saveSession {s : Session} (hs : s.state = .auth → CopiedSession tr s) :
    Sees Op.Possible QuietStep s.save (fun _ _ => True) tr := by
  refine sees_bind (sees_execute fun x => ⟨trivial, ?_, ?_, ?_⟩) fun _ tr₁ hsub _ => ?_
  · rintro k ls ⟨⟩
  · rintro s' hw hauth
    cases hw with
    | insert h => simp at h
    | upsert h =>
        obtain rfl : s' = s := by simpa using h
        exact hs hauth
  · rintro ss p f he hmem
    cases he
    simp at hmem
  · refine sees_mono (sees_cachePut fun x => ⟨?_, ?_, ?_, ?_⟩) fun _ _ _ _ => trivial
    · simp [Op.PutsNone]
    · rintro k ls ⟨⟩
    · rintro s' hw hauth
      cases hw
      exact (hs hauth).mono hsub
    · rintro ss p f ⟨⟩

theorem sees_setMfa {s : Session} {b : Bool} (hs : s.state = .auth → CopiedSession tr s) :
    Sees Op.Possible QuietStep (s.setMfa b) (fun s' _ => s' = { s with isMfa := b }) tr :=
  sees_bind (sees_saveSession hs) fun _ _ _ _ => sees_ret rfl

theorem sees_invalidateEach (now : Int) (uid : String) (l : List Session)
    (hl : ∀ s ∈ l, ∃ v ∈ tr, SessionRead s v) :
    Sees Op.Possible QuietStep (Session.invalidateEach now uid l) (fun _ _ => True) tr := by
  induction l generalizing tr with
  | nil => exact sees_ret trivial
  | cons s ss ih =>
      obtain ⟨hs, hss⟩ := List.forall_mem_cons.mp hl
      unfold Session.invalidateEach
      split
      · refine sees_bind (sees_saveSession fun hauth => ⟨s, hs, hauth, rfl, rfl⟩) fun _ tr₁ hsub _ => ?_
        have hread : ∀ s ∈ ss, ∃ v ∈ tr₁, SessionRead s v := fun s hs => by
          obtain ⟨v, hv, hr⟩ := hss s hs
          exact ⟨v, hsub v hv, hr⟩
        exact sees_bind (ih hread) fun _ _ _ _ => sees_ret trivial
      · exact ih hss

theorem sees_invalidateForUser (uid : String) :
    Sees Op.Possible QuietStep (Session.invalidateForUser uid) (fun _ _ => True) tr := by
  refine sees_bind (sees_pure touches_unixTimestamp) fun now tr₁ _ _ => ?_
  refine sees_bind (F := fun l tr' => ∀ s ∈ l, ∃ v ∈ tr', SessionRead s v) ?_ fun l tr₂ _ hl => ?_
  · refine sees_bind (sees_select fun x =>
      of_pure (o := .select .sessions _) trivial x)
      fun rows tr₂ _ h => ?_
    refine sees_ret fun s hs => ⟨_, by rw [h.1]; exact List.mem_cons_self, .table _ rows ?_⟩
    exact (List.mem_insertionSort _).mp hs
  refine sees_bind (sees_invalidateEach now uid l hl) fun removed _ _ _ => ?_
  exact sees_pure (within_forEach fun id _ => touches_cacheDel _ _)

theorem sees_saveCached (u : User) (oldEmail : Option String) :
    Sees Op.Possible QuietStep (u.saveCached oldEmail) (fun _ _ => True) tr := by
  refine sees_bind (F := fun _ _ => True) (sees_runIf (fun _ => ?_) fun _ => trivial) fun _ _ _ _ => ?_
  · exact sees_bind (sees_invalidateForUser u.id) fun _ _ _ _ =>
      sees_touches (RefreshToken.invalidateForUser_touches u.id) (by simp) quietSlots_nil
  · have hrest : Touches [] [(.users, .user)] (do
        forEach (fun email => cacheDel .users (User.cacheIdx email)) oldEmail.toList
        cachePut .users (User.cacheIdx u.id) (.user u)
        cachePut .users (User.cacheIdx u.email) (.user u)) := by
      refine touches_bind (within_forEach fun _ _ => touches_cacheDel _ _) fun _ => ?_
      exact touches_bind (touches_cachePut (by simp [CacheVal.slot]) _) fun _ =>
        touches_cachePut (by simp [CacheVal.slot]) _
    exact sees_touches hrest (by simp) (by simp [QuietSlots])

theorem sees_saveUser (data : AppState) (u : User) (oldEmail : Option String) :
    Sees Op.Possible QuietStep (u.save data oldEmail) (fun _ _ => True) tr := by
  refine sees_bind (sees_touches (touches_runIf (User.isEmailFree_touches data _)) (by simp)
    (by simp [QuietSlots])) fun _ _ _ _ => ?_
  have hexec : Touches [.users] [] (execute [u.saveStmt]) :=
    touches_execute (by simp [DbWrite.table, User.saveStmt])
  exact sees_bind (sees_touches hexec (by simp) quietSlots_nil) fun _ _ _ _ => sees_saveCached u oldEmail

theorem sees_saveUserTxn (u : User) :
    Sees Op.Possible QuietStep u.saveTxn (fun s _ => s = u.saveStmt) tr := by
  have hbegin : Touches [] [] (execute []) := touches_execute (by simp)
  exact sees_bind (sees_pure hbegin) fun _ _ _ _ =>
    sees_bind (sees_saveCached u none) fun _ _ _ _ => sees_ret rfl
/-! The principal -/

theorem allowsSessions : AllowsSessions QuietStep where
  now tr x := allows List.not_mem_nil quietSlots_nil .now trivial trivial tr x
  find tr p x := allows List.not_mem_nil quietSlots_nil (.select .sessions p) trivial trivial tr x
  get tr sid x := allows List.not_mem_nil quietSlots_nil (.cacheGet .sessions _) trivial trivial tr x
  read tr s x hrows := by
    obtain ⟨p, rows, hmem⟩ := hrows
    refine ⟨by simp [Op.PutsNone], ?_, ?_, ?_⟩
    · rintro k ls ⟨⟩
    · rintro s' hw hauth
      cases hw
      exact ⟨s, ⟨_, hmem, .table p _ List.mem_cons_self⟩, hauth, rfl, rfl⟩
    · rintro ss p f ⟨⟩
  seen tr sid s lastSeen hread := by
    obtain ⟨v, hv, hr⟩ := hread
    exact sees_saveSession fun hauth => ⟨s, ⟨v, hv, hr.read⟩, hauth, rfl, rfl⟩

/-! Users -/

theorem sees_findUser {id : String} :
    Sees Op.Possible QuietStep (User.find id) (fun u tr' => FindsUser id u tr') tr :=
  User.sees_find (allows (by simp) quietSlots_nil) fun _ _ x _ => of_userPut x

theorem sees_findByEmail {data : AppState} {email : String} :
    Sees Op.Possible QuietStep (User.findByEmail data email) (fun u tr' => HasReadUser u tr') tr := by
  refine sees_mono (sees_cachedRow (t := .users) (allows (by simp) quietSlots_nil)
    fun tr u x _ _ => of_userPut x) fun u tr' _ h => ?_
  rcases h with ⟨v, hv, hu⟩ | ⟨-, rows, hmem⟩
  · rw [CacheVal.user?_eq_some.mp hu] at hv
    exact .inl ⟨_, hv⟩
  · exact .inr ⟨_, rows, hmem⟩

/-! The handlers -/

section Handlers

variable {data : AppState}
  {id : String} {req : HttpRequest}
  {upd : UpdateUserSelfRequest}

theorem sees_execute {ss : List DbWrite} (h : ∀ s ∈ ss, s.table ≠ .sessions) :
    Sees Op.Possible QuietStep (execute ss) (fun _ _ => True) tr := by
  have ht : Touches (ss.map DbWrite.table) [] (execute ss) :=
    touches_execute fun s hs => List.mem_map_of_mem hs
  refine sees_touches ht (fun hmem => ?_) quietSlots_nil
  obtain ⟨s, hs, he⟩ := List.mem_map.mp hmem
  exact h s hs he

theorem sees_update {upd : UpdateUserRequest} {user : Option User} :
    Sees Op.Possible QuietStep (User.update data id upd user) (fun _ _ => True) tr := by
  have hfind : Touches [] [(.users, .user)] (User.findUnless id user) := by
    cases user with
    | none => exact User.find_touches id
    | some u => exact touches_ret _
  refine sees_bind (sees_touches hfind (by simp) (by simp [QuietSlots])) fun old _ _ _ => ?_
  refine sees_bind (sees_touches (User.updateFields_touches upd) (by simp) (by simp [QuietSlots]))
    fun user _ _ _ => ?_
  refine sees_bind (sees_saveUser data user _) fun _ _ _ _ => ?_
  refine sees_bind (F := fun _ _ => True) (sees_runIf (fun _ => sees_invalidateForUser user.id)
    fun _ => trivial) fun _ _ _ _ => ?_
  refine sees_bind (F := fun _ _ => True) ?_ fun _ _ _ _ => sees_ret trivial
  cases upd.userValues with
  | none => exact sees_ret trivial
  | some values => exact sees_touches (UserValues.upsert_touches _ _) (by simp) (by simp [QuietSlots])

theorem sees_updateSelfReq :
    Sees Op.Possible QuietStep (User.updateSelfReq data id upd) (fun _ _ => True) tr := by
  refine sees_bind sees_findUser fun user _ _ _ => ?_
  refine sees_bind (sees_touches (user.selfPassword_touches upd) (by simp) quietSlots_nil)
    fun password _ _ _ => ?_
  refine sees_bind (sees_touches (user.selfEmail_touches upd.email) (by simp) quietSlots_nil)
    fun _ _ _ _ => ?_
  exact sees_bind sees_update fun _ _ _ _ => sees_ret trivial

theorem sees_putUserSelf :
    Sees Op.Possible QuietStep (putUserSelf data req id upd) (fun _ _ => True) tr := by
  refine sees_bind (sees_getPrincipal allowsSessions) fun p _ _ _ => ?_
  refine sees_bind sees_answer fun _ _ _ _ => sees_bind sees_answer fun _ _ _ _ => ?_
  exact sees_updateSelfReq

theorem sees_passwordReset {userId : String} {reqData : PasswordResetRequest} :
    Sees Op.Possible QuietStep (handlePutUserPasswordReset data req userId reqData)
      (fun _ _ => True) tr := by
  refine sees_bind sees_findUser fun user _ _ _ => ?_
  refine sees_bind (sees_pure (user.resetMfa_touches _)) fun _ _ _ _ => ?_
  have hlink : Touches [] [] (MagicLink.find reqData.magicLinkId) := touches_fetchOne _ _
  refine sees_bind (sees_pure hlink) fun ml _ _ _ => ?_
  refine sees_bind (sees_touches (ml.validate_touches data _ req true) (by simp) quietSlots_nil)
    fun _ _ _ _ => ?_
  refine sees_bind (sees_touches (User.applyPasswordRules_touches _) (by simp)
    (by simp [QuietSlots])) fun user _ _ _ => ?_
  refine sees_bind (sees_touches ml.invalidate_touches (by simp) quietSlots_nil) fun _ _ _ _ => ?_
  refine sees_bind (sees_saveUser data _ none) fun _ _ _ _ => ?_
  refine sees_bind (sees_invalidateForUser user.id) fun _ _ _ _ => ?_
  refine sees_bind sees_answer fun usage _ _ _ => ?_
  cases usage <;> exact sees_ret trivial

theorem sees_regStart {passkeyName : String} :
    Sees Op.Possible QuietStep (regStart id passkeyName) (fun _ _ => True) tr :=
  sees_touches (regStart_touches id passkeyName) (by simp) (by simp [QuietSlots])

theorem sees_linkPasskey {user : User} {uuid : String} :
    Sees Op.Possible QuietStep (linkPasskey data user uuid)
      (fun ss _ => ∀ s ∈ ss, s.table = .users) tr := by
  unfold linkPasskey
  split
  · exact sees_ret (by simp)
  · refine sees_bind (sees_saveUserTxn _) fun s _ _ hs => sees_ret ?_
    subst hs
    simp [DbWrite.table, User.saveStmt]

theorem sees_regFinish {passkeyName cred : String} :
    Sees Op.Possible QuietStep (regFinish data id passkeyName cred) (fun _ _ => True) tr := by
  refine sees_bind sees_findUser fun user _ _ _ => ?_
  refine sees_bind (sees_pure (touches_cacheGet _ _ _)) fun res _ _ _ => ?_
  refine sees_bind (sees_pure (touches_okOr _ _)) fun reg _ _ _ => ?_
  refine sees_bind (sees_pure (touches_cacheDel _ _)) fun _ _ _ _ => ?_
  refine sees_bind (sees_pure ⟨trivial, fun _ => trivial⟩) fun r _ _ _ => ?_
  rcases r with msg | ⟨pk, userVerified⟩
  · exact sees_fail
  refine sees_bind sees_throwIf fun _ _ _ _ => ?_
  refine sees_bind (sees_execute (by simp)) fun _ _ _ _ => ?_
  refine sees_bind sees_linkPasskey fun upd _ _ hupd => ?_
  have hcreate : ∀ tr, Sees Op.Possible QuietStep (PasskeyEntity.create user.id reg.passkeyUserId
      passkeyName pk userVerified) (fun s _ => s.table = .passkeys) tr := fun tr => by
    refine sees_bind (sees_pure touches_unixTimestamp) fun now _ _ _ => ?_
    refine sees_bind (sees_execute (by simp)) fun _ _ _ _ => ?_
    refine sees_bind (sees_pure (touches_cacheDel _ _)) fun _ _ _ _ => ?_
    exact sees_bind (sees_pure (touches_cacheDel _ _)) fun _ _ _ _ => sees_ret rfl
  refine sees_bind (hcreate _) fun ins _ _ hins => sees_execute fun s hs => ?_
  rcases List.mem_append.mp hs with hs | hs
  · rw [hupd s hs]
    decide
  · rw [List.mem_singleton.mp hs, hins]
    decide

theorem sees_adminAccess :
    Sees Op.Possible QuietStep (adminAccess data req) (fun _ _ => True) tr :=
  sees_bind (sees_getPrincipal allowsSessions) fun _ _ _ _ =>
    sees_bind sees_answer fun _ _ _ _ => sees_ret trivial

theorem sees_newSession :
    Sees Op.Possible QuietStep (newSession data req) (fun _ _ => True) tr := by
  have hnew : Sees Op.Possible QuietStep (Session.new data.sessionLifetime req.realIp)
      (fun s _ => s.state = .init) tr := by
    refine sees_bind (sees_pure (touches_getRand _)) fun id _ _ _ => ?_
    refine sees_bind (sees_pure (touches_getRand _)) fun csrf _ _ _ => ?_
    exact sees_bind (sees_pure touches_unixTimestamp) fun now _ _ _ => sees_ret rfl
  refine sees_bind hnew fun s _ _ hs => ?_
  refine sees_bind (sees_saveSession fun hauth => ?_) fun _ _ _ _ => sees_ret trivial
  rw [hs] at hauth
  cases hauth

end Handlers

/-! Passkeys and their ceremonies -/

section Ceremonies

variable {data : AppState}

theorem sees_findData {dec : Dec α} {what code : String} :
    Sees Op.Possible QuietStep (findData dec what code) (fun d tr' => FoundData dec code d tr') tr := by
  have hget : ∀ x, QuietStep tr ⟨.cacheGet .webauthnData code, x⟩ :=
    of_pure (o := .cacheGet .webauthnData code) trivial
  refine sees_bind (sees_cacheGet hget) fun found tr₁ _ hfound => ?_
  refine sees_mono sees_okOr fun d tr₂ _ hd => ?_
  obtain ⟨rfl, rfl⟩ := hd
  obtain ⟨y, rfl, ⟨h, -⟩ | ⟨v, a, h, rfl, ha⟩⟩ := hfound
  · cases h
  · cases h
    cases v with
    | bytes b =>
        obtain ⟨⟨d', rest⟩, hdec, hfst⟩ := Option.map_eq_some_iff.mp ha
        cases hfst
        exact ⟨b, rest, List.mem_cons_self, hdec⟩
    | _ => cases ha

theorem sees_passkeysFor {uv : Bool} {id : String} :
    Sees Op.Possible QuietStep (passkeysFor uv id)
      (fun ls tr' => ∃ v ∈ tr', ReadsPasskeys id uv ls v) tr := by
  rw [passkeysFor_eq]
  refine sees_mono (sees_cached
    (F := fun ls tr' => ⟨.select .passkeys (passkeyFilter id uv), .ok ls⟩ ∈ tr')
    (of_pure (o := .cacheGet .webauthn _) trivial)
    (fun tr₁ _ => ?_) fun tr₁ ls x h => ?_) fun ls tr' _ h => ?_
  · refine sees_mono (sees_select (of_pure (o := .select .passkeys _) trivial)) fun ls tr₂ _ h => ?_
    rw [h.1]
    exact List.mem_cons_self
  · refine ⟨by simp [Op.PutsNone], ?_, ?_, ?_⟩
    · rintro k ls' he
      cases he
      exact ⟨id, uv, rfl, h⟩
    · rintro s' hw -
      cases hw
    · rintro ss p f ⟨⟩
  · rcases h with ⟨v, rfl, hv⟩ | ⟨tr₁, h, rfl⟩
    · rw [CacheVal.passkeys?_eq_some] at hv
      subst hv
      exact ⟨_, List.mem_cons_self, .inl rfl⟩
    · exact ⟨_, List.mem_cons_of_mem _ h, .inr rfl⟩

theorem sees_updateCredentials {result : AuthenticationResult} {user : User}
    {pks : List PasskeyEntity} :
    Sees Op.Possible QuietStep (updateCredentials data result user pks) (fun _ _ => True) tr := by
  induction pks generalizing user tr with
  | nil => exact sees_ret trivial
  | cons e es ih =>
      unfold updateCredentials
      split
      · exact ih
      refine sees_bind (sees_pure touches_unixTimestamp) fun now _ _ _ => ?_
      refine sees_bind (sees_execute (by simp)) fun _ _ _ _ => ?_
      have hupdate : ∀ (e : PasskeyEntity) tr, Sees Op.Possible QuietStep e.updatePasskey
          (fun s _ => s.table = .passkeys) tr := fun e tr => by
        refine sees_bind (sees_execute (by simp)) fun _ _ _ _ => ?_
        have hput : Touches [] [(.webauthn, .passkey)] (cachePut .webauthn
            (PasskeyEntity.cacheIdxSingle e.userId e.name) (.passkey e)) :=
          touches_cachePut (by simp [CacheVal.slot]) _
        refine sees_bind (sees_touches hput (by simp) (by simp [QuietSlots])) fun _ _ _ _ => ?_
        exact sees_bind (sees_pure (touches_cacheDel _ _)) fun _ _ _ _ => sees_ret rfl
      refine sees_bind (hupdate _ _) fun updPasskey _ _ hpk => ?_
      refine sees_bind (sees_saveUserTxn _) fun updUser _ _ huser => ?_
      refine sees_bind (sees_execute fun s hs => ?_) fun _ _ _ _ => ih
      rcases List.mem_cons.mp hs with rfl | hs
      · rw [hpk]
        decide
      · rw [List.mem_singleton.mp hs, huser]
        exact Table.noConfusion

/-- What is handed out at the end was found, and its ceremony has been finished. -/
theorem sees_authFinish {id : String} {req : WebauthnAuthFinishRequest} :
    Sees Op.Possible QuietStep (authFinish data id req)
      (fun d tr' => ∃ wd, wd.data = d ∧ FinishedCeremony data req wd tr') tr := by
  refine sees_bind sees_findData fun wd tr₁ _ hwd => ?_
  refine sees_bind sees_unwrap fun st tr₂ hsub₂ hst => ?_
  refine sees_bind sees_findUser fun user tr₃ hsub₃ huser => ?_
  have hkeys : Sees Op.Possible QuietStep (passkeysFor false user.id)
      (fun ls tr' => ∃ v ∈ tr', ReadsPasskeys user.id false ls v) tr₃ := sees_passkeysFor
  refine sees_bind hkeys fun pks tr₄ hsub₄ _ => ?_
  have hfinish : Sees Op.Possible QuietStep (finishPasskeyAuthentication req.data st)
      (fun r tr' => ∀ result, r = .ok result →
        ⟨.finishPasskeyAuthentication req.data st, .ok result⟩ ∈ tr' ∧ result.credId ∈ st.credentials)
      tr₄ := by
    refine sees_call (o := Op.finishPasskeyAuthentication req.data st) (fun x _ =>
      of_pure (o := .finishPasskeyAuthentication req.data st) trivial x) fun x hx => sees_ret ?_
    rintro result rfl
    exact ⟨List.mem_cons_self, possible_finish hx⟩
  refine sees_bind hfinish fun r tr₅ hsub₅ hr => ?_
  rcases r with msg | result
  · exact sees_fail
  obtain ⟨hmem, hcred⟩ := hr result rfl
  refine sees_bind sees_throwIf fun _ tr₆ hsub₆ huv => ?_
  refine sees_bind sees_updateCredentials fun _ tr₇ hsub₇ _ => sees_ret ⟨wd, rfl, ?_⟩
  have hlate : ∀ v ∈ tr₅, v ∈ tr₇ := fun v hv => hsub₇ v (hsub₆ v hv)
  have hlater : ∀ v ∈ tr₃, v ∈ tr₇ := fun v hv => hlate v (hsub₅ v (hsub₄ v hv))
  refine ⟨hwd.mono fun v hv => hlater v (hsub₃ v (hsub₂ v hv)), st, result, user, hst.2,
    hlate _ hmem, hcred, huser.read.mono hlater, fun hforce => ?_⟩
  by_contra hne
  exact huv.2 ⟨hforce, by simpa using hne⟩

end Ceremonies

/-! The first factor -/

section FirstFactor

variable {data : AppState}
  {u : User}
  {provider : AuthProvider} {cookie : Option AuthProviderLinkCookie}

theorem sees_validatePassword {plain : String} :
    Sees Op.Possible QuietStep (u.validatePassword data plain) (fun _ _ => u.Validates data plain)
      tr := by
  have hcmp : ∀ tr, Sees Op.Possible QuietStep (u.comparePassword data plain)
      (fun _ _ => u.Validates data plain) tr := fun tr => by
    unfold User.comparePassword User.matchPasswords
    split
    · exact sees_bind sees_fail fun _ _ _ h => h
    · next hash hhash =>
        refine sees_bind sees_answer fun ok tr₁ _ hok => ?_
        refine sees_mono sees_throwIf fun _ tr₂ _ h => ⟨hash, hhash, ?_⟩
        rw [hok.2, Bool.eq_true_of_not_eq_false h.2]
  refine sees_bind sees_throwIf fun _ _ _ _ => ?_
  split
  · exact hcmp _
  · refine sees_bind (sees_pure touches_unixTimestamp) fun now _ _ _ => ?_
    split
    · refine sees_bind sees_throwIf fun _ _ _ _ => sees_bind (hcmp _) fun _ _ _ _ => ?_
      have hlink : Touches [.magicLinks] []
          (MagicLink.create u.id data.mlLtPwdReset (.passwordReset none)) :=
        MagicLink.create_touches _ _ _
      exact sees_bind (sees_touches hlink (by simp) quietSlots_nil) fun _ _ _ _ => sees_fail
    · exact hcmp _

theorem sees_checkLoginPassword {password : Option String} :
    Sees Op.Possible QuietStep (checkLoginPassword data u password) (fun r _ =>
      r.1.id = u.id ∧ r.1.email = u.email ∧ r.1.webauthnUserId = u.webauthnUserId ∧
      (password = none → r.1 = u) ∧ ∀ plain, password = some plain → u.Validates data plain) tr := by
  cases password with
  | none => exact sees_ret ⟨rfl, rfl, rfl, fun _ => rfl, fun _ h => by cases h⟩
  | some plain =>
      refine sees_bind sees_validatePassword fun _ _ _ hvalid => ?_
      refine sees_bind (sees_pure touches_unixTimestamp) fun now _ _ _ => ?_
      refine sees_bind (sees_saveUser data _ none) fun _ _ _ _ => sees_ret ⟨rfl, rfl, rfl, ?_, ?_⟩
      · exact fun h => by cases h
      · rintro plain' ⟨⟩
        exact hvalid

theorem sees_mfaCookieOf {req : HttpRequest} :
    Sees Op.Possible QuietStep (mfaCookieOf data req u : M ε (Option WebauthnCookie))
      (fun c _ => c ≠ none → CookieFor data req u.email) tr := by
  have hparse : Sees Op.Possible QuietStep (WebauthnCookie.parseValidate data req.mfaCookie)
      (fun c _ => ∃ v, req.mfaCookie = some v ∧ data.decodeMfaCookie v = .ok c) tr := by
    unfold WebauthnCookie.parseValidate
    split
    · exact sees_fail
    · next v hv =>
        refine sees_bind sees_answer fun c _ _ hc => ?_
        refine sees_bind (sees_pure touches_now) fun ms _ _ _ => ?_
        exact sees_bind sees_throwIf fun _ _ _ _ => sees_ret ⟨v, hv, hc.2⟩
  refine sees_bind (sees_tried hparse) fun r _ _ hr => ?_
  rcases r with e | c
  · exact sees_ret fun h => absurd rfl h
  · refine sees_ret fun h => ?_
    obtain ⟨v, hv, hdec⟩ := hr c rfl
    split at h
    · next hc =>
        obtain ⟨hemail, -⟩ := Bool.and_eq_true_iff.mp hc
        exact ⟨v, c, hv, hdec, of_decide_eq_true hemail⟩
    · exact absurd rfl h

/-- Without a password, the account is one of passkeys only, or there is a cookie for it. -/
theorem sees_authorizeUser {req : HttpRequest} {reqData : LoginRequest} :
    Sees Op.Possible QuietStep (authorizeUser data req reqData) (fun u tr' => HasReadUser u tr' ∧
      (reqData.password = none → u.accountType = .passkey ∨ CookieFor data req u.email)) tr := by
  refine sees_bind (sees_mapErr sees_findByEmail) fun u tr₁ _ hu => ?_
  refine sees_bind sees_mfaCookieOf fun cookie tr₂ hsub₂ hcookie => ?_
  refine sees_bind sees_throwIf fun _ tr₃ hsub₃ hmust => ?_
  refine sees_bind sees_throwIf fun _ tr₄ hsub₄ _ => ?_
  refine sees_bind (sees_pure (touches_mapErr u.checkEnabled_touches)) fun _ tr₅ hsub₅ _ => ?_
  refine sees_bind (sees_pure (touches_mapErr u.checkExpired_touches)) fun _ tr₆ hsub₆ _ =>
    sees_ret ⟨hu.mono fun v hv => ?_, fun hnone => ?_⟩
  · exact hsub₆ v (hsub₅ v (hsub₄ v (hsub₃ v (hsub₂ v hv))))
  · by_cases htype : u.accountType = .passkey
    · exact .inl htype
    · refine .inr (hcookie fun hc => hmust.2 ?_)
      simp [hnone, htype, hc]

theorem sees_findClaimsUser {email uid : String} :
    Sees Op.Possible QuietStep (AuthProviderIdClaims.findUser data provider cookie email uid)
      (fun r tr' => ∀ u, r = some u → MetAs u tr') tr := by
  have hfederated : ∀ tr, Sees Op.Possible QuietStep (User.findByFederation provider.id uid)
      (fun u tr' => HasReadUser u tr') tr := fun tr => by
    refine sees_mono (sees_fetchOne fun x => of_pure (o := .select .users _) trivial x)
      fun u tr' _ h => ?_
    obtain ⟨⟨rows, rfl⟩, -⟩ := h
    exact .inr ⟨_, rows, List.mem_cons_self⟩
  refine sees_bind (sees_tried (hfederated tr)) fun r tr₁ _ hr => ?_
  rcases r with e | u
  · refine sees_bind (sees_tried sees_findByEmail) fun r tr₂ _ hr => ?_
    rcases r with e | u
    · exact sees_ret fun u h => by cases h
    · refine sees_bind sees_answer fun u' tr₃ hsub hlink => sees_ret ?_
      rintro _ ⟨⟩
      refine (((hr u rfl).mono hsub).met).same ?_ ?_ <;>
      · replace hlink := hlink.2
        unfold AuthProviderIdClaims.linkUser at hlink
        repeat' split at hlink
        all_goals cases hlink
        rfl
  · refine sees_ret ?_
    rintro _ ⟨⟩
    exact (hr u rfl).met

/-- The user that claims belong to is linked to the identity that they name. -/
theorem sees_validateUpdateUser {c : AuthProviderIdClaims} :
    Sees Op.Possible QuietStep (c.validateUpdateUser data provider cookie) (fun r tr' =>
      (∃ uid, c.userIdOf = some uid ∧ LinkedTo provider uid r.1) ∧ MetAs r.1 tr') tr := by
  have hlogin : ∀ (email uid : String) (admin : Option Bool) (now : Int) (u : Option User) tr,
      (∀ u', u = some u' → MetAs u' tr) →
      Sees Op.Possible QuietStep (c.loginUser data provider email uid admin now u)
        (fun u tr' => LinkedTo provider uid u ∧ MetAs u tr') tr := by
    intro email uid admin now u tr hu
    cases u with
    | none =>
        refine sees_bind (sees_pure (touches_getRand _)) fun id _ _ _ => ?_
        refine sees_bind (sees_pure touches_unixTimestamp) fun createdAt tr₂ _ _ => ?_
        refine sees_bind (F := fun _ tr' => ∃ ss x u₀, ⟨.execute ss, x⟩ ∈ tr' ∧
          .insert .users u₀ ∈ ss ∧ u₀.id = id ∧ u₀.webauthnUserId = none) ?_ fun _ tr₃ _ hins => ?_
        · have htable : ∀ u : User, (Op.execute [.insert .users u]).Touches [.users] [] := fun u => by
            simp [Op.Touches, DbWrite.table]
          refine sees_mono (Rauthy.sees_execute fun x => of_touches (htable _) (by simp)
            quietSlots_nil x) fun _ tr' _ h => ?_
          rw [h]
          exact ⟨_, _, _, List.mem_cons_self, List.mem_singleton_self _, rfl, rfl⟩
        have hcount : Touches [] [(.c12hr, .count)] User.countInc :=
          touches_bind User.count_touches fun _ => touches_cachePut (by simp [CacheVal.slot]) _
        refine sees_bind (sees_touches hcount (by simp) (by simp [QuietSlots]))
          fun _ tr₄ hsub _ => sees_ret ⟨⟨rfl, rfl⟩, ?_⟩
        obtain ⟨ss, x, u₀, hmem, hins, hid, hkey⟩ := hins
        exact ⟨u₀, hid, hkey, .inr ⟨ss, x, hsub _ hmem, hins⟩⟩
    | some u =>
        show Sees _ _ (c.updateUser data provider email uid admin now u) _ _
        unfold AuthProviderIdClaims.updateUser
        split
        · exact sees_bind (sees_saveUser data _ none) fun _ _ _ _ => sees_fail
        · next hok =>
            refine sees_bind (sees_saveUser data _ _) fun _ tr' hsub _ => sees_ret ⟨?_, ?_⟩
            · unfold AuthProviderIdClaims.forbiddenError at hok
              split at hok
              · cases hok
              · next hprov =>
                  split at hok
                  · cases hok
                  · next hfed => exact ⟨not_not.mp hprov, not_not.mp hfed⟩
            · exact ((hu u rfl).mono hsub).same rfl rfl
  refine sees_bind sees_okOr fun email _ _ _ => sees_bind sees_okOr fun uid _ _ huid => ?_
  refine sees_bind sees_findClaimsUser fun userOpt tr₁ _ hfound => ?_
  refine sees_bind sees_answer fun admin tr₂ hsub₂ _ => ?_
  refine sees_bind sees_answer fun mfa tr₃ hsub₃ _ => ?_
  refine sees_bind (sees_pure touches_unixTimestamp) fun now tr₄ hsub₄ _ => ?_
  refine sees_bind (hlogin email uid admin now userOpt _ fun u hu => ?_) fun u _ _ hu => ?_
  · exact (hfound u hu).mono fun v hv => hsub₄ v (hsub₃ v (hsub₂ v hv))
  refine sees_bind (sees_touches (saveValues_touches u.id) (by simp)
    (by simp [QuietSlots])) fun _ _ hsub _ => ?_
  exact sees_ret ⟨⟨uid, huid.2, hu.1⟩, hu.2.mono hsub⟩

end FirstFactor

/-! The grants that redeem no code -/

section Grants

variable {data : AppState}
  {user : User} {client : Client} {req : HttpRequest} {reqData : TokenRequest}
  {peerIp : Option String}

theorem sees_fromUser {fp nonce scopes : Option String}
    {acf : AuthCodeFlow} {dcf : DeviceCodeFlow} :
    Sees Op.Possible QuietStep (TokenSet.fromUser data user client fp nonce scopes acf dcf)
      (fun ts _ => SignedWith data (amrAuthTime data user acf 0).1 ts) tr := by
  unfold TokenSet.fromUser
  refine sees_bind (sees_touches (TokenSet.customsOf_touches _ _) (by simp)
    (by simp [QuietSlots])) fun c _ _ _ => ?_
  obtain ⟨customsAccess, customsId⟩ := c
  refine sees_bind (sees_pure (TokenSet.lifetimeOf_touches user client)) fun lifetime _ _ _ => ?_
  refine sees_bind (sees_touches (buildAccessToken_touches _ _ _ _ _ _ _ _) (by simp)
    (by simp [QuietSlots])) fun accessToken _ _ _ => ?_
  refine sees_bind sees_answer fun atHash _ _ _ => ?_
  have hslots : QuietSlots TokenSet.slots := by simp [TokenSet.slots, QuietSlots]
  refine sees_bind (sees_buildIdToken (allows (by simp) hslots)) fun idToken _ _ hid => ?_
  refine sees_bind (sees_touches (TokenSet.refreshTokenFor_touches _ _ _ _ _ _ _)
    (by simp [TokenSet.tables]) (by simp [QuietSlots])) fun refreshToken _ _ _ => sees_ret ?_
  rintro token ⟨⟩
  obtain ⟨kp, claims, hsign, -, hamr⟩ := hid
  exact ⟨kp, claims, hsign, hamr⟩

theorem sees_updateUsed :
    Sees Op.Possible QuietStep client.updateUsed (fun _ _ => True) tr :=
  sees_touches client.updateUsed_touches (by simp) quietSlots_nil

theorem sees_findMaybeEphemeral {id : String} :
    Sees Op.Possible QuietStep (Client.findMaybeEphemeral data id) (fun _ _ => True) tr :=
  sees_touches (Client.findMaybeEphemeral_touches data id) (by simp) (by simp [QuietSlots])

theorem sees_grantTypeCredentials :
    Sees Op.Possible QuietStep (grantTypeCredentials data req reqData)
      (fun c _ => SignedWith data "pwd" c.1) tr := by
  refine sees_bind sees_throwIf fun _ _ _ _ => sees_bind sees_answer fun r _ _ _ => ?_
  obtain ⟨clientId, clientSecret⟩ := r
  refine sees_bind (sees_touches (Client.find_touches clientId) (by simp) (by simp [QuietSlots]))
    fun client _ _ _ => ?_
  refine sees_bind sees_throwIf fun _ _ _ _ => sees_bind sees_throwIf fun _ _ _ _ => ?_
  refine sees_bind sees_okOr fun secret _ _ _ => sees_bind sees_answer fun _ _ _ _ => ?_
  refine sees_bind sees_answer fun _ _ _ _ => sees_bind sees_answer fun origin _ _ _ => ?_
  refine sees_bind (sees_touches (dpopFingerprint_touches data req origin) (by simp)
    (by simp [QuietSlots])) fun r _ _ _ => ?_
  obtain ⟨fingerprint, headers⟩ := r
  refine sees_bind sees_updateUsed fun _ _ _ _ => ?_
  refine sees_bind (F := fun ts _ => ts.idToken = none) ?_ fun ts _ _ hts => sees_ret ?_
  · exact sees_bind (sees_touches (buildAccessToken_touches _ _ _ _ _ _ _ _) (by simp)
      (by simp [QuietSlots])) fun _ _ _ _ => sees_ret rfl
  · intro token htoken
    rw [hts] at htoken
    cases htoken

theorem sees_passwordTokens {password : String} {fp : Option String} {headers : Headers} :
    Sees Op.Possible QuietStep (passwordTokens data user password client fp headers)
      (fun c _ => SignedWith data "pwd" c.1) tr := by
  have hlogin : ∀ tr, Sees Op.Possible QuietStep (passwordLogin data user password)
      (fun _ _ => True) tr := fun tr => by
    refine sees_bind (sees_pure touches_unixTimestamp) fun now _ _ _ => ?_
    refine sees_bind (sees_pure (User.isArgon2Uptodate_touches _ _)) fun uptodate _ _ _ => ?_
    refine sees_bind (sees_pure (renewHash_touches _ _ _)) fun user _ _ _ => ?_
    exact sees_bind (sees_saveUser data user none) fun _ _ _ _ => sees_ret trivial
  refine sees_bind (hlogin _) fun user _ _ _ => sees_bind sees_updateUsed fun _ _ _ _ => ?_
  exact sees_bind sees_fromUser fun _ _ _ hts => sees_ret hts

theorem sees_grantTypePassword :
    Sees Op.Possible QuietStep (grantTypePassword data req reqData)
      (fun c _ => SignedWith data "pwd" c.1) tr := by
  refine sees_bind sees_okOr fun email _ _ _ => sees_bind sees_okOr fun password _ _ _ => ?_
  refine sees_bind sees_answer fun r _ _ _ => ?_
  obtain ⟨clientId, clientSecret⟩ := r
  refine sees_bind (sees_touches (passwordClient_touches data req clientId clientSecret) (by simp)
    (by simp [QuietSlots])) fun r _ _ _ => ?_
  obtain ⟨client, fingerprint, headers⟩ := r
  refine sees_bind (sees_mapErr sees_findByEmail) fun user _ _ _ => ?_
  refine sees_bind (sees_pure user.checkEnabled_touches) fun _ _ _ _ => ?_
  refine sees_bind (sees_pure user.checkExpired_touches) fun _ _ _ _ => ?_
  refine sees_bind (sees_tried sees_validatePassword) fun r _ _ _ => ?_
  rcases r with e | u
  · refine sees_bind (F := fun _ _ => True) ?_ fun _ _ _ _ => sees_fail
    exact sees_bind (sees_pure touches_unixTimestamp) fun now _ _ _ => sees_saveUser data _ none
  · exact sees_passwordTokens

theorem sees_findRefreshToken {token : String} :
    Sees Op.Possible QuietStep (findRefreshToken token) (fun _ _ => True) tr := by
  refine sees_bind (sees_pure (touches_unwrap _ _)) fun id _ _ _ => ?_
  refine sees_bind (sees_pure (touches_mapErr (touches_fetchOne _ _))) fun rt _ _ _ => ?_
  refine sees_bind (sees_pure touches_unixTimestamp) fun now _ _ _ => ?_
  split
  · exact sees_bind (sees_execute (by simp [DbWrite.table])) fun _ _ _ _ => sees_fail
  · exact sees_ret trivial

theorem sees_expireRefreshToken {rt : RefreshToken} :
    Sees Op.Possible QuietStep (expireRefreshToken data rt) (fun _ _ => True) tr := by
  refine sees_bind (sees_pure touches_unixTimestamp) fun now _ _ _ => ?_
  dsimp only
  split
  · exact sees_execute (by simp [DbWrite.table])
  · exact sees_ret trivial

theorem sees_grantTypeRefresh :
    Sees Op.Possible QuietStep (grantTypeRefresh data req reqData)
      (fun c _ => SignedWith data "pwd" c.1) tr := by
  refine sees_bind sees_okOr fun refreshToken _ _ _ => sees_bind sees_answer fun r _ _ _ => ?_
  obtain ⟨clientId, clientSecret⟩ := r
  refine sees_bind sees_findMaybeEphemeral fun client _ _ _ => ?_
  refine sees_bind sees_answer fun origin _ _ _ => ?_
  refine sees_bind (sees_pure (checkSecret_touches _ _ _ _)) fun _ _ _ _ => ?_
  refine sees_bind sees_answer fun _ _ _ _ => ?_
  refine sees_bind (F := fun c _ => SignedWith data "pwd" c.1) ?_ fun _ _ _ hts => sees_ret hts
  refine sees_bind sees_answer fun kid _ _ _ => ?_
  refine sees_bind (sees_touches (JwkKeyPair.find_touches data kid) (by simp)
    (by simp [QuietSlots])) fun kp _ _ _ => ?_
  refine sees_bind (sees_pure touches_unixTimestamp) fun now _ _ _ => ?_
  refine sees_bind sees_answer fun claims _ _ _ => sees_bind sees_throwIf fun _ _ _ _ => ?_
  refine sees_bind (F := fun _ _ => True) (sees_ret trivial) fun client _ _ _ => ?_
  refine sees_bind sees_throwIf fun _ _ _ _ => sees_bind sees_answer fun origin _ _ _ => ?_
  refine sees_bind (sees_touches (refreshProof_touches _ _ _ _) (by simp) (by simp [QuietSlots]))
    fun r _ _ _ => ?_
  obtain ⟨fingerprint, nonce⟩ := r
  refine sees_bind sees_findRefreshToken fun rt _ _ _ => ?_
  refine sees_bind (sees_touches (refreshUser_touches data _) (by simp) (by simp [QuietSlots]))
    fun user _ _ _ => ?_
  refine sees_bind sees_expireRefreshToken fun _ _ _ _ => ?_
  exact sees_bind sees_fromUser fun _ _ _ hts => sees_ret hts

theorem sees_issueDevice {code : DeviceAuthCode} {now : Int} :
    Sees Op.Possible QuietStep (issueDevice data peerIp code user client now)
      (fun a _ => ∀ ts, a = .ok ts → SignedWith data "pwd" ts) tr := by
  refine sees_bind (sees_pure (touches_ignoreErr (code.delete_touches data))) fun _ _ _ _ => ?_
  refine sees_bind (sees_pure (touches_getRand _)) fun id _ _ _ => ?_
  refine sees_bind (sees_tried (sees_execute (by simp [DbWrite.table]))) fun r _ _ _ => ?_
  rcases r with e | u
  · exact sees_ret fun ts h => by cases h
  refine sees_bind (sees_tried sees_fromUser) fun r _ _ hr => ?_
  rcases r with e | ts
  · exact sees_ret fun ts h => by cases h
  · refine sees_ret ?_
    rintro _ ⟨⟩
    exact hr ts rfl

theorem sees_grantTypeDeviceCode {payload : TokenRequest} :
    Sees Op.Possible QuietStep (grantTypeDeviceCode data peerIp payload)
      (fun a _ => ∀ ts, a = .ok ts → SignedWith data "pwd" ts) tr := by
  unfold grantTypeDeviceCode
  split
  · exact sees_ret fun ts h => by cases h
  · next deviceCode _ =>
      refine sees_bind (sees_pure (touches_attempt
        (DeviceAuthCode.findByDeviceCode_touches data deviceCode))) fun r _ _ _ => ?_
      rcases r with e | - | code
      · exact sees_ret fun ts h => by cases h
      · exact sees_ret fun ts h => by cases h
      dsimp only
      split
      · exact sees_ret fun ts h => by cases h
      split
      · exact sees_ret fun ts h => by cases h
      split
      · exact sees_ret fun ts h => by cases h
      refine sees_bind (sees_pure touches_now) fun ms _ _ _ => ?_
      refine sees_bind (sees_pure (checkPoll_touches data code ms)) fun r _ _ _ => ?_
      obtain ⟨code, error, description⟩ := r
      dsimp only
      split
      · refine sees_bind (sees_tried sees_findUser) fun r _ _ _ => ?_
        rcases r with e | user
        · exact sees_ret fun ts h => by cases h
        refine sees_bind (sees_touches (touches_attempt (Client.find_touches _)) (by simp)
          (by simp [QuietSlots])) fun r _ _ _ => ?_
        rcases r with e | client
        · exact sees_ret fun ts h => by cases h
        · exact sees_issueDevice
      · refine sees_bind (sees_touches (touches_ignoreErr (DeviceAuthCode.save_touches data _))
          (by simp) (by simp [QuietSlots])) fun _ _ _ _ => sees_ret fun ts h => by cases h

end Grants

end QuietStep

end Rauthy
