/-
Rauthy/PasswordChanges.lean

What a failed change of a password leaves behind: `User::update`, `User::update_self_req` and
`handle_put_user_password_reset`.  The history of the passwords, the MFA code, the magic link and
the row of the user are written one after the other, and each write can be followed by an error.

Main results:
  * `PasswordChange.Harmless.clean`, a change that is refused early leaves all of them as they were;
  * `PasswordChange.harmless_of_clean`, no other change does;
  * `unset_password_recorded`: a password that was never set, in the history.
-/
import Rauthy.Atomicity
import Rauthy.PasswordHistory
import Rauthy.PasswordReset

namespace Rauthy

open Prog

/-! ### Changes of passwords -/

/-- A call that sets the password `plain`, or that of the request. -/
inductive PasswordChange where
  | update (id : String) (upd : UpdateUserRequest) (user : Option User) (plain : String)
  | updateSelf (id : String) (upd : UpdateUserSelfRequest) (plain : String)
  | reset (req : HttpRequest) (userId : String) (reqData : PasswordResetRequest)

namespace PasswordChange

def prog (data : AppState) : PasswordChange → M ErrorResponse Unit
  | update id upd user plain => do
      let _ ← User.update data id { upd with password := some plain } user
  | updateSelf id upd plain => do
      let _ ← User.updateSelfReq data id { upd with passwordNew := some plain }
  | reset req userId reqData => do
      let _ ← handlePutUserPasswordReset data req userId reqData

/-- The MFA code that is presented. -/
def code : PasswordChange → Option String
  | update _ _ _ _ => none
  | updateSelf _ upd _ => upd.mfaCode
  | reset _ _ reqData => reqData.mfaCode

/-- The magic link that is presented. -/
def link : PasswordChange → Option String
  | reset _ _ reqData => some reqData.magicLinkId
  | _ => none

end PasswordChange

/-- The MFA code is not there, or not any more. -/
def codeNotFound : ErrorResponse := ⟨.notFound, "Webauthn Service Request Data not found"⟩

/-- What a change has left as it was, when it has ended with the error `e`.  The MFA code may have
expired in the meantime. -/
structure AsItWas (op : PasswordChange) (w : World) (e : ErrorResponse) (w' : World) : Prop where
  passwords : (w'.db .users).map (fun u => (u.id, u.password)) =
    (w.db .users).map fun u => (u.id, u.password)
  history : w'.db .recentPasswords = w.db .recentPasswords
  code : ∀ k ∈ op.code, w'.cache .webauthnData k = w.cache .webauthnData k ∨ e = codeNotFound
  link : ∀ id ∈ op.link, (w'.db .magicLinks).filter (fun l => l.id == id) =
    (w.db .magicLinks).filter fun l => l.id == id

/-! ### Changes that are refused -/

/-- The user may be found under the id. -/
def ServedUser (w : World) (id : String) (u : User) : Prop :=
  w.cache .users (User.cacheIdx id) = some (.user u) ∨
    ((w.db .users).filter fun u => u.id == id).head? = some u

/-- The policy may be found. -/
def ServedPolicy (w : World) (rules : PasswordPolicy) : Prop :=
  w.cache .c12hr "password_rules_" = some (.policy rules) ∨
    ((w.db .passwordPolicy).filter fun _ => true).head? = some rules

/-- The policy turns the password down, or one of the recent passwords does. -/
def Refused (data : AppState) (w : World) (u : User) (rules : PasswordPolicy) (plain : String) :
    Prop :=
  (∃ e, User.checkPolicy data rules plain = .error e) ∨
  ∃ n ∈ rules.notRecentlyUsed, ∃ row, (recentRows w u.id).head? = some row ∧
    ∃ e, User.checkRecent data plain n 1 (Text.split '\n' row.passwords) = .error e

/-- There is a row of the user, and it may get the e-mail. -/
def Writable (w : World) (uid email : String) : Prop :=
  (∃ r ∈ w.db .users, r.id = uid) ∧ ∀ r ∈ w.db .users, r.email = email → r.id = uid

/-- The update of this user stops before something is written, or it has nothing to write. -/
def UpdateHarmless (data : AppState) (w : World) (u : User) (email plain : String) : Prop :=
  ∀ rules, ServedPolicy w rules → Refused data w u rules plain ∨
    rules.notRecentlyUsed = none ∧ ¬ Writable w u.id (data.toLowercase email)

/-- The service request that is found under the code, for this user. -/
def AcceptsCode (w : World) (u : User) (code : String) (d : WebauthnServiceReq) : Prop :=
  (∃ v, w.cache .webauthnData code = some v ∧
    (v.bytes?.bind WebauthnServiceReq.decode).map Prod.fst = some d) ∧ d.userId = u.id

/-- The current password of the user, which has not expired. -/
def CurrentPassword (data : AppState) (w : World) (u : User) (plain : String) : Prop :=
  ∃ hash, u.password = some hash ∧ data.comparePasswords plain hash = .ok true ∧
    ∀ exp ∈ u.passwordExpires, w.clock / 1000 ≤ exp

/-- A link that may be used by this request. -/
structure ValidLink (data : AppState) (w : World) (req : HttpRequest) (uid : String)
    (l : MagicLink) : Prop where
  cookie : MagicLink.validateCookie data l req = .ok ()
  csrf : MagicLink.validateLinkCsrf l req = .ok ()
  user : l.userId = uid
  exp : w.clock / 1000 ≤ l.exp
  unused : l.used = false

/-- With this user and link the policy refuses the password. -/
def ResetHarmless (data : AppState) (w : World) (u : User) (req : HttpRequest)
    (reqData : PasswordResetRequest) : Prop :=
  ∀ l, ((w.db .magicLinks).filter fun l => l.id == reqData.magicLinkId).head? = some l →
    ValidLink data w req u.id l → ∀ rules, ServedPolicy w rules →
      Refused data w u rules reqData.password

namespace PasswordChange

/-- The change is refused before anything is written. -/
def Harmless (data : AppState) (w : World) : PasswordChange → Prop
  | update id upd user plain => ∀ u, user = some u ∨ user = none ∧ ServedUser w id u →
      UpdateHarmless data w u upd.email plain
  | updateSelf id upd plain => ∀ u, ServedUser w id u →
      match upd.passwordCurrent, upd.mfaCode with
      | some current, _ => CurrentPassword data w u current →
          UpdateHarmless data w u u.email plain
      | none, some code => ∀ d, AcceptsCode w u code d →
          d.code ≠ code ∧ UpdateHarmless data w u u.email plain
      | none, none => True
  | reset req userId reqData => ∀ u, ServedUser w userId u →
      if u.hasWebauthnEnabled then
        ∀ code ∈ reqData.mfaCode, ∀ d, AcceptsCode w u code d →
          d.code ≠ code ∧ ResetHarmless data w u req reqData
      else ResetHarmless data w u req reqData

end PasswordChange

/-! ### What does not write -/

/-- Nothing that matters to the change has been written. -/
structure Steady (op : PasswordChange) (w₀ w : World) : Prop where
  users : w.db .users = w₀.db .users
  history : w.db .recentPasswords = w₀.db .recentPasswords
  policy : w.db .passwordPolicy = w₀.db .passwordPolicy
  rules : ∀ r, w.cache .c12hr "password_rules_" = some (.policy r) → ServedPolicy w₀ r
  code : ∀ k ∈ op.code, w.cache .webauthnData k = w₀.cache .webauthnData k
  link : ∀ id ∈ op.link, (w.db .magicLinks).filter (fun l => l.id == id) =
    (w₀.db .magicLinks).filter fun l => l.id == id
  clock : w₀.clock ≤ w.clock

/-- The program keeps it so. -/
abbrev Safe {α : Type} (op : PasswordChange) (w₀ : World) (p : M ErrorResponse α) (F : α → Prop) :
    Prop :=
  Hoare sem (Steady op w₀) (fun _ => True) p fun a _ => F a

section Safe

variable {α : Type} {op : PasswordChange} {data : AppState} {w₀ w : World} {u : User}
  {plain : String}

theorem Steady.refl (op : PasswordChange) (w : World) : Steady op w w :=
  ⟨rfl, rfl, rfl, fun _ h => .inl h, fun _ _ => rfl, fun _ _ => rfl, le_rfl⟩

theorem Steady.asItWas (h : Steady op w₀ w) (e : ErrorResponse) : AsItWas op w₀ e w :=
  ⟨by rw [h.users], h.history, fun k hk => .inl (h.code k hk), h.link⟩

theorem Steady.recentRows (h : Steady op w₀ w) (uid : String) :
    Rauthy.recentRows w uid = Rauthy.recentRows w₀ uid := by
  rw [Rauthy.recentRows, h.history]
  rfl

/-- The tables that a change of a password must not write. -/
def guarded : List Table := [.users, .recentPasswords, .passwordPolicy]

theorem safe_of_touches {p : M ErrorResponse α} {ts : List Table} {cs : List (CacheName × Slot)}
    (ht : Touches ts cs p) (hs : Spares .webauthnData p) (hts : ∀ t ∈ guarded, t ∉ ts)
    (hlink : op.link = none ∨ Table.magicLinks ∉ ts) (hcs : (CacheName.c12hr, Slot.policy) ∉ cs) :
    Safe op w₀ p fun _ => True := by
  intro w r w' hI _ hx
  have hframe := ht.frame hx
  refine ⟨⟨?_, ?_, ?_, fun rules hrules => ?_, fun k hk => ?_, fun id hid => ?_, ?_⟩,
    fun _ _ => trivial⟩
  · exact (hframe.db _ (hts _ (by simp [guarded]))).trans hI.users
  · exact (hframe.db _ (hts _ (by simp [guarded]))).trans hI.history
  · exact (hframe.db _ (hts _ (by simp [guarded]))).trans hI.policy
  · rcases hframe.cache _ _ _ hrules with h | h
    · exact hI.rules rules h
    · exact absurd h hcs
  · rw [hs.cache hx]
    exact hI.code k hk
  · rcases hlink with h | h
    · rw [h] at hid
      cases hid
    · rw [hframe.db _ h]
      exact hI.link id hid
  · exact hI.clock.trans hframe.clock

theorem safe_of_reads {p : M ErrorResponse α} (ht : Touches [] [] p) (hs : Spares .webauthnData p) :
    Safe op w₀ p fun _ => True :=
  safe_of_touches ht hs (fun _ _ => List.not_mem_nil) (.inr List.not_mem_nil) List.not_mem_nil

theorem safe_policy : Safe op w₀ PasswordPolicy.find (ServedPolicy w₀) := by
  have hget : Safe op w₀ (cacheGet .c12hr "password_rules_" CacheVal.policy?)
      fun x => ∀ rules, x = some rules → ServedPolicy w₀ rules := by
    refine hoare_cacheGet (fun w hI _ => ?_) (fun _ _ _ _ _ h => by cases h)
      fun w v rules hI _ hv hrules rules' h => ?_
    · refine ⟨⟨hI.users, hI.history, hI.policy, fun r hr => ?_, hI.code, hI.link, hI.clock⟩,
        fun _ h => by cases h⟩
      rw [World.del_cache, if_pos ⟨rfl, rfl⟩] at hr
      cases hr
    · cases h
      rw [CacheVal.policy?_eq_some] at hrules
      rw [hrules] at hv
      exact hI.rules _ hv
  have hload : Safe op w₀ (fetchOne .passwordPolicy fun _ => true) (ServedPolicy w₀) := by
    intro w r w' hI _ hx
    obtain rfl := exec_fetchOne_world hx
    refine ⟨hI, fun rules hr => .inr ?_⟩
    rw [hr] at hx
    have hhead := (exec_fetchOne.mp hx).1
    rwa [hI.policy] at hhead
  refine hoare_seq hget fun x hx => ?_
  rcases x with - | rules
  · refine hoare_seq hload fun rules hrules => hoare_seq (F := fun _ => True) ?_ fun _ _ =>
      hoare_ret fun _ _ _ => hrules
    refine hoare_cachePut fun w hI _ => ⟨⟨hI.users, hI.history, hI.policy, fun r hr => ?_, ?_,
      hI.link, hI.clock⟩, trivial⟩
    · rw [World.put_cache, if_pos ⟨rfl, rfl⟩] at hr
      cases hr
      exact hrules
    · intro k hk
      rw [World.put_cache, if_neg fun h => by cases h.1]
      exact hI.code k hk
  · exact hoare_ret fun _ _ _ => hx rules rfl

/-- A recent password that is refused: nothing is stored, and the user has a row already. -/
theorem safe_updateRecent {n : Int} {row : RecentPasswordsEntity} {e : ErrorResponse}
    {newHash : String} (hrow : (recentRows w₀ u.id).head? = some row)
    (he : User.checkRecent data plain n 1 (Text.split '\n' row.passwords) = .error e) :
    Safe op w₀ (u.updateRecent data plain newHash n) fun _ => False := by
  intro w r w' hI _ hx
  have hrow' : (recentRows w u.id).head? = some row := by rw [hI.recentRows, hrow]
  rcases exec_bind.mp hx with ⟨_, rfl, hfind⟩ | ⟨x, w₁, hfind, hrest⟩
  · obtain ⟨_, -, hfind⟩ := exec_tried_panic hfind
    rw [exec_fetchOne_world hfind]
    exact ⟨hI, fun _ h => by cases h⟩
  obtain rfl : w₁ = w := exec_fetchOne_world (exec_tried.mp hfind)
  rcases x with e' | found
  · -- the row is there, so that none can be inserted
    have hcreate := hrest
    obtain ⟨x, w₂, hsem, hans⟩ := hcreate
    have hw₂ : w' = w₂ := by cases x <;> exact hans.2
    rcases sem_execute.mp hsem with ⟨e'', rfl, rfl⟩ | ⟨db, hcommits, rfl⟩
    · rw [hw₂]
      exact ⟨hI, fun _ h => by rw [hans.1] at h; cases h⟩
    · exact absurd (exec_execute.mpr ⟨db, hcommits, rfl⟩)
        (not_exec_create (List.mem_of_head? hrow'))
  · have hhead : (recentRows w₁ u.id).head? = some found :=
      (exec_fetchOne.mp (exec_tried.mp hfind)).1
    rw [hrow'] at hhead
    cases hhead
    dsimp only at hrest
    rw [he] at hrest
    obtain ⟨rfl, rfl⟩ : r = _ ∧ w' = w₁ := hrest
    exact ⟨hI, fun _ h => by cases h⟩

end Safe

section Safe

variable {α β : Type} {op : PasswordChange} {data : AppState} {w₀ w : World} {u : User}
  {plain : String}
  {upd : UpdateUserRequest}

/-- A new password that the policy refuses, or whose hash is not recorded. -/
theorem safe_applyPasswordRules (h : ∀ rules, ServedPolicy w₀ rules →
      Refused data w₀ u rules plain ∨ rules.notRecentlyUsed = none) :
    Safe op w₀ (u.applyPasswordRules data plain) fun u' => u'.id = u.id ∧ u'.email = u.email ∧
      ∃ rules, ServedPolicy w₀ rules ∧ ¬ Refused data w₀ u rules plain := by
  have hhash : Safe op w₀ (call (.hashPassword plain) answer : M ErrorResponse String)
      fun _ => True :=
    safe_of_reads ⟨trivial, fun x => touches_answer x⟩ ⟨trivial, fun x => spares_answer x⟩
  refine hoare_seq safe_policy fun rules hrules => ?_
  refine hoare_seq (F := fun _ => User.checkPolicy data rules plain = .ok ())
    (hoare_answer fun _ _ _ _ hok => hok) fun _ hok => hoare_seq hhash fun newHash _ => ?_
  have hrecent : Safe op w₀ (forEach (u.updateRecent data plain newHash)
      rules.notRecentlyUsed.toList) fun _ => ¬ Refused data w₀ u rules plain := by
    rcases h rules hrules with (⟨e, he⟩ | ⟨n, hn, row, hrow, e, he⟩) | hnone
    · rw [hok] at he
      cases he
    · obtain hn : rules.notRecentlyUsed = some n := hn
      rw [hn]
      exact hoare_seq (safe_updateRecent hrow he) fun _ hfalse => hfalse.elim
    · rw [hnone]
      refine hoare_ret fun _ _ _ => ?_
      rintro (⟨e, he⟩ | ⟨n, hn, -⟩)
      · rw [hok] at he
        cases he
      · rw [hnone] at hn
        cases hn
  have hexpires : Safe op w₀ (u.newPasswordExpires data rules) fun _ => True := by
    refine safe_of_reads (u.newPasswordExpires_touches data rules) ?_
    unfold User.newPasswordExpires
    split
    · trivial
    · split
      · trivial
      · exact spares_bind spares_unixTimestamp fun _ => trivial
  refine hoare_seq hrecent fun _ hrefused => hoare_seq hexpires fun expires _ => ?_
  exact hoare_ret fun _ _ _ => ⟨rfl, rfl, rules, hrules, hrefused⟩

theorem safe_updateFields (h : UpdateHarmless data w₀ u upd.email plain) :
    Safe op w₀ (u.updateFields data { upd with password := some plain }) fun u' =>
      u'.id = u.id ∧ u'.email = data.toLowercase upd.email ∧
        ¬ Writable w₀ u.id (data.toLowercase upd.email) := by
  have hroles : Safe op w₀ (Role.sanitize upd.roles) fun _ => True := by
    refine safe_of_touches (Role.sanitize_touches _) ?_ (by simp [guarded]) (by simp) (by simp)
    exact spares_bind (spares_cached (by decide) (spares_select _ _)) fun _ => trivial
  have hgroups : Safe op w₀ (Group.sanitize upd.groups) fun _ => True := by
    refine safe_of_touches (Group.sanitize_touches _) ?_ (by simp [guarded]) (by simp) (by simp)
    cases upd.groups with
    | none => trivial
    | some gs => exact spares_bind (spares_cached (by decide) (spares_select _ _)) fun _ => trivial
  have hpassword : Safe op w₀ (User.applyPasswordRules data { u with
      email := data.toLowercase upd.email, givenName := upd.givenName, familyName := upd.familyName,
      language := upd.language.getD u.language } plain) fun u' => u'.id = u.id ∧
        u'.email = data.toLowercase upd.email ∧
          ∃ rules, ServedPolicy w₀ rules ∧ ¬ Refused data w₀ u rules plain :=
    safe_applyPasswordRules fun rules hrules => (h rules hrules).imp_right And.left
  refine hoare_seq hpassword fun u' hu' => hoare_seq hroles fun roles _ => ?_
  refine hoare_seq hgroups fun groups _ => hoare_ret fun _ _ _ => ?_
  obtain ⟨hid, hemail, rules, hrules, hrefused⟩ := hu'
  exact ⟨hid, hemail, ((h rules hrules).resolve_left hrefused).2⟩

/-- The statement changes nothing, or the e-mail stands in its way. -/
theorem safe_saveStmt (hu : UniqueEmails w₀.db) (h : ¬ Writable w₀ u.id u.email) :
    Safe op w₀ (execute [u.saveStmt]) fun _ => True := by
  rintro w r w' hI - ⟨x, w₁, hsem, hans⟩
  have hw₁ : w' = w₁ := by cases x <;> exact hans.2
  rw [hw₁]
  rcases sem_execute.mp hsem with ⟨e, rfl, rfl⟩ | ⟨db, hcommits, rfl⟩
  · exact ⟨hI, fun _ _ => trivial⟩
  have happlied := hcommits.applied
  cases happlied
  have hunique := hcommits.unique
  rw [UniqueEmails, hI.users] at hunique
  have hafter := hunique hu
  rw [UniqueEmails, Function.update_self] at hafter
  have hsame : (w₀.db .users).map (fun r => if (r.id == u.id) = true
      then { u with id := r.id, createdAt := r.createdAt } else r) = w₀.db .users := by
    refine (List.map_congr_left fun r hr => ?_).trans (List.map_id _)
    split
    · next hid =>
        -- so there is a row, and the e-mail belongs to another one
        have hr' : ∃ r ∈ w₀.db .users, r.id = u.id := ⟨r, hr, beq_iff_eq.mp hid⟩
        have hother : ∃ v ∈ w₀.db .users, v.email = u.email ∧ v.id ≠ u.id := by
          by_contra hnone
          refine h ⟨hr', fun v hv hemail => ?_⟩
          by_contra hne
          exact hnone ⟨v, hv, hemail, hne⟩
        obtain ⟨v, hv, hemail, hne⟩ := hother
        have hv' : v ∈ (w₀.db .users).map (fun r => if (r.id == u.id) = true
            then { u with id := r.id, createdAt := r.createdAt } else r) :=
          List.mem_map.mpr ⟨v, hv, if_neg fun he => hne (beq_iff_eq.mp he)⟩
        have hu' : ({ u with id := r.id, createdAt := r.createdAt } : User) ∈
            (w₀.db .users).map (fun r => if (r.id == u.id) = true
              then { u with id := r.id, createdAt := r.createdAt } else r) :=
          List.mem_map.mpr ⟨r, hr, if_pos hid⟩
        have hv'' : v = { u with id := r.id, createdAt := r.createdAt } :=
          hafter.inj hv' hu' hemail
        exact absurd ((congrArg User.id hv'').trans (beq_iff_eq.mp hid)) hne
    · rfl
  refine ⟨⟨?_, hI.history, hI.policy, hI.rules, hI.code, hI.link, hI.clock⟩, fun _ _ => trivial⟩
  show Function.update w.db .users _ .users = _
  rw [Function.update_self, hI.users]
  exact hsame

theorem User.isEmailFree_spares {c : CacheName} (hc : CacheName.users ≠ c) (email : String) :
    Spares c (User.isEmailFree data email) := by
  refine spares_bind (spares_attempt (spares_cached hc (spares_fetchOne _ _))) fun x => ?_
  rcases x with e | u
  · trivial
  · trivial

theorem safe_save (hu : UniqueEmails w₀.db) (h : ¬ Writable w₀ u.id u.email)
    (oldEmail : Option String) : Safe op w₀ (u.save data oldEmail) fun _ => True := by
  have hfree : Safe op w₀ (runIf (oldEmail.isSome = true) (User.isEmailFree data u.email))
      fun _ => True := by
    refine safe_of_touches (touches_runIf (User.isEmailFree_touches data _)) ?_ (by simp) (by simp)
      (by simp)
    exact within_runIf fun _ => User.isEmailFree_spares (by decide) _
  have hcached : Safe op w₀ (u.saveCached oldEmail) fun _ => True := by
    refine safe_of_touches (u.saveCached_touches oldEmail) ?_ (by simp [guarded]) (by simp)
      (by simp)
    refine spares_bind (within_runIf fun _ => spares_bind ?_ fun _ => ?_) fun _ => ?_
    · exact Session.invalidateForUser_spares (by decide) _
    · exact spares_bind spares_unixTimestamp fun _ => spares_execute _
    · refine spares_bind (within_forEach fun _ _ => spares_cacheDel (by decide) _) fun _ => ?_
      exact spares_bind (spares_cachePut (by decide) _ _) fun _ => spares_cachePut (by decide) _ _
  exact hoare_seq hfree fun _ _ => hoare_seq (safe_saveStmt hu h) fun _ _ => hcached

theorem safe_update (hu : UniqueEmails w₀.db) (h : UpdateHarmless data w₀ u upd.email plain)
    (id : String) :
    Safe op w₀ (User.update data id { upd with password := some plain } (some u))
      fun _ => True := by
  refine hoare_seq (F := fun old => old = u) (hoare_ret fun _ _ _ => rfl) fun old hold => ?_
  rw [hold]
  refine hoare_seq (safe_updateFields h) fun u' hu' => ?_
  obtain ⟨hid, hemail, hwritable⟩ := hu'
  rw [← hid, ← hemail] at hwritable
  refine hoare_seq (safe_save hu hwritable _) fun _ _ => ?_
  refine hoare_seq (F := fun _ => True) ?_ fun _ _ => hoare_seq (F := fun _ => True) ?_ fun _ _ =>
    hoare_ret fun _ _ _ => trivial
  · refine safe_of_touches (touches_runIf (Session.invalidateForUser_touches _)) ?_
      (by simp [guarded]) (by simp) (by simp)
    exact within_runIf fun _ => Session.invalidateForUser_spares (by decide) _
  · show Safe op w₀ (User.updateValues u'.id upd.userValues) _
    cases upd.userValues with
    | none => exact hoare_ret fun _ _ _ => trivial
    | some values =>
        refine safe_of_touches (UserValues.upsert_touches _ _) ?_ (by simp [guarded]) (by simp)
          (by simp)
        exact spares_bind (spares_execute _) fun _ =>
          spares_bind (spares_cachePut (by decide) _ _) fun _ => trivial

end Safe

/-! ### What a change asks for first -/

section Checks

variable {data : AppState} {w w' : World} {u : User} {plain : String}

theorem exec_comparePassword : Exec sem (u.comparePassword data plain) w (.ok ()) w' ↔
    (∃ hash, u.password = some hash ∧ data.comparePasswords plain hash = .ok true) ∧ w' = w := by
  unfold User.comparePassword User.matchPasswords
  rcases hp : u.password with - | hash
  · refine ⟨fun h => ?_, fun ⟨⟨hash, h, _⟩, _⟩ => by cases h⟩
    obtain ⟨_, _, hfail, -⟩ := exec_bind_ok.mp h
    cases hfail.1
  constructor
  · intro h
    obtain ⟨ok, w₁, hok, hthrow⟩ := exec_bind_ok.mp h
    obtain ⟨hanswer, rfl⟩ := exec_answer.mp hok
    obtain ⟨hne, rfl⟩ := exec_throwIf_ok.mp hthrow
    rw [Bool.not_eq_false] at hne
    rw [hne] at hanswer
    exact ⟨⟨hash, rfl, hanswer⟩, rfl⟩
  · rintro ⟨⟨_, ⟨⟩, hok⟩, rfl⟩
    exact exec_bind_ok.mpr ⟨true, w', exec_answer.mpr ⟨hok, rfl⟩, exec_throwIf_ok.mpr
      ⟨by decide, rfl⟩⟩

theorem exec_time : Exec sem (unixTimestamp : M ErrorResponse Int) w (.ok (w.clock / 1000)) w :=
  exec_unixTimestamp.mpr ⟨w.clock, rfl, le_rfl, rfl⟩

theorem CurrentPassword.of_exec (h : Exec sem (u.validatePassword data plain) w (.ok ()) w') :
    CurrentPassword data w u plain := by
  obtain ⟨_, w₁, hsome, hrest⟩ := exec_bind_ok.mp h
  obtain ⟨-, rfl⟩ := exec_throwIf_ok.mp hsome
  split at hrest
  · next hnone =>
      obtain ⟨⟨hash, hhash, hok⟩, -⟩ := exec_comparePassword.mp hrest
      refine ⟨hash, hhash, hok, fun exp hexp => ?_⟩
      rw [hnone] at hexp
      cases hexp
  · next exp hexp =>
      obtain ⟨now, w₂, htime, hrest⟩ := exec_bind_ok.mp hrest
      obtain ⟨ms, rfl, hms, -⟩ := exec_unixTimestamp.mp htime
      split at hrest
      · -- an expired password is refused in any case
        obtain ⟨_, _, -, hrest⟩ := exec_bind_ok.mp hrest
        obtain ⟨_, _, -, hrest⟩ := exec_bind_ok.mp hrest
        obtain ⟨_, _, -, hrest⟩ := exec_bind_ok.mp hrest
        cases hrest.1
      · next hlate =>
          obtain ⟨⟨hash, hhash, hok⟩, -⟩ := exec_comparePassword.mp hrest
          refine ⟨hash, hhash, hok, fun exp' hexp' => ?_⟩
          rw [hexp] at hexp'
          cases hexp'
          omega

theorem CurrentPassword.exec (h : CurrentPassword data w u plain) :
    Exec sem (u.validatePassword data plain) w (.ok ()) w := by
  obtain ⟨hash, hhash, hok, hexp⟩ := h
  have hcompare : Exec sem (u.comparePassword data plain) w (.ok ()) w :=
    exec_comparePassword.mpr ⟨⟨hash, hhash, hok⟩, rfl⟩
  have hset : ¬ u.password.isNone = true := by
    rw [hhash]
    exact Bool.false_ne_true
  refine exec_bind_ok.mpr ⟨(), w, exec_throwIf_ok.mpr ⟨hset, rfl⟩, ?_⟩
  split
  · exact hcompare
  · next exp he =>
      have hle := hexp exp he
      refine exec_bind_ok.mpr ⟨_, w, exec_time, ?_⟩
      rw [if_neg (by omega)]
      exact hcompare

variable {req : HttpRequest} {uid : String} {l : MagicLink}
  {rules : PasswordPolicy}

theorem ValidLink.of_exec (h : Exec sem (l.validate data uid req true) w (.ok ()) w') :
    ValidLink data w req uid l := by
  obtain ⟨_, w₁, hcookie, h₁⟩ := exec_bind_ok.mp h
  obtain ⟨hcookie', rfl⟩ := exec_answer.mp hcookie
  obtain ⟨_, w₂, hcsrf, h₂⟩ := exec_bind_ok.mp h₁
  unfold runIf at hcsrf
  rw [if_pos rfl] at hcsrf
  obtain ⟨hcsrf', rfl⟩ := exec_answer.mp hcsrf
  obtain ⟨_, w₃, huser, h₃⟩ := exec_bind_ok.mp h₂
  obtain ⟨huser', rfl⟩ := exec_throwIf_ok.mp huser
  obtain ⟨now, w₄, htime, h₄⟩ := exec_bind_ok.mp h₃
  obtain ⟨ms, rfl, hms, -⟩ := exec_unixTimestamp.mp htime
  obtain ⟨_, w₅, hexp, h₅⟩ := exec_bind_ok.mp h₄
  have hexp' := (exec_throwIf_ok.mp hexp).1
  have hused := (exec_throwIf_ok.mp h₅).1
  rw [Bool.not_eq_true] at hused
  exact ⟨hcookie', hcsrf', not_not.mp huser', by omega, hused⟩

theorem ValidLink.exec (h : ValidLink data w req uid l) :
    Exec sem (l.validate data uid req true) w (.ok ()) w := by
  have hexp := h.exp
  refine exec_bind_ok.mpr ⟨(), w, exec_answer.mpr ⟨h.cookie, rfl⟩, ?_⟩
  refine exec_bind_ok.mpr ⟨(), w, ?_, ?_⟩
  · unfold runIf
    rw [if_pos rfl]
    exact exec_answer.mpr ⟨h.csrf, rfl⟩
  refine exec_bind_ok.mpr ⟨(), w, exec_throwIf_ok.mpr ⟨not_not.mpr h.user, rfl⟩, ?_⟩
  refine exec_bind_ok.mpr ⟨_, w, exec_time, ?_⟩
  refine exec_bind_ok.mpr ⟨(), w, exec_throwIf_ok.mpr ⟨by omega, rfl⟩, ?_⟩
  exact exec_throwIf_ok.mpr ⟨by rw [h.unused]; decide, rfl⟩

/-- A row that is found comes from the cache, or it is the first one of the table. -/
theorem exec_cachedOne {t : Table} {c : CacheName} {k : String} {as : CacheVal → Option (Row t)}
    {wrap : Row t → CacheVal} {p : Row t → Bool} {a : Row t}
    (h : Exec sem (cached c k as wrap (fetchOne t p)) w (.ok a) w') :
    (∃ v, w.cache c k = some v ∧ as v = some a) ∨ ((w.db t).filter p).head? = some a := by
  rcases exec_cached h with ⟨v, hv, ha, -⟩ | ⟨w₁, w₂, hw₁, hload, -⟩
  · exact .inl ⟨v, hv, ha⟩
  · have hhead := (exec_fetchOne.mp hload).1
    rcases hw₁ with rfl | rfl
    · exact .inr hhead
    · exact .inr hhead

theorem ServedUser.of_exec {id : String} (h : Exec sem (User.find id) w (.ok u) w') :
    ServedUser w id u := by
  rcases exec_cachedOne (t := .users) h with ⟨v, hv, hu⟩ | hhead
  · rw [CacheVal.user?_eq_some.mp hu] at hv
    exact .inl hv
  · exact .inr hhead

theorem ServedPolicy.of_exec (h : Exec sem PasswordPolicy.find w (.ok rules) w') :
    ServedPolicy w rules := by
  rcases exec_cachedOne (t := .passwordPolicy) h with ⟨v, hv, hrules⟩ | hhead
  · rw [CacheVal.policy?_eq_some.mp hrules] at hv
    exact .inl hv
  · exact .inr hhead

theorem ServedUser.exec {id : String} (h : ServedUser w id u) :
    ∃ w', Exec sem (User.find id) w (.ok u) w' ∧ w'.db = w.db ∧ w'.clock = w.clock ∧
      w'.issued = w.issued := by
  rcases h with h | h
  · exact ⟨w, exec_cached_hit h rfl, rfl, rfl, rfl⟩
  · have hload : Exec sem (fetchOne .users fun u => u.id == id) (w.del .users (User.cacheIdx id))
        (.ok u) (w.del .users (User.cacheIdx id)) := exec_fetchOne.mpr ⟨h, rfl⟩
    exact ⟨_, exec_cached_load hload, rfl, rfl, rfl⟩

theorem ServedPolicy.exec (h : ServedPolicy w rules) :
    ∃ w', Exec sem PasswordPolicy.find w (.ok rules) w' ∧ w'.db = w.db ∧ w'.clock = w.clock ∧
      w'.issued = w.issued := by
  rcases h with h | h
  · exact ⟨w, exec_cached_hit h rfl, rfl, rfl, rfl⟩
  · have hload : Exec sem (fetchOne .passwordPolicy fun _ => true)
        (w.del .c12hr "password_rules_") (.ok rules) (w.del .c12hr "password_rules_") :=
      exec_fetchOne.mpr ⟨h, rfl⟩
    exact ⟨_, exec_cached_load hload, rfl, rfl, rfl⟩

end Checks

/-! ### Refused changes leave everything as it was -/

/-- Whatever error the program ends with, `K` holds of it and of the state that is left. -/
def FailsAs {α : Type} (K : ErrorResponse → World → Prop) (p : M ErrorResponse α) (w : World) :
    Prop :=
  ∀ e w', Exec sem p w (.error (.err e)) w' → K e w'

section Clean

variable {α β : Type} {K : ErrorResponse → World → Prop} {op : PasswordChange} {data : AppState}
  {w₀ w w' : World} {u : User} {plain code : String}
  {c : CacheName}
  {f : β → M ErrorResponse α}

theorem failsAs_bind {p : M ErrorResponse β} (hp : FailsAs K p w)
    (hf : ∀ b w', Exec sem p w (.ok b) w' → FailsAs K (f b) w') : FailsAs K (p >>= f) w := by
  intro e w' hx
  rcases exec_bind.mp hx with ⟨e', he, hfail⟩ | ⟨b, w₁, hb, hrest⟩
  · cases he
    exact hp e w' hfail
  · exact hf b w₁ hb e w' hrest

theorem failsAs_assoc {γ : Type} {p : M ErrorResponse γ} {g : γ → M ErrorResponse β}
    (h : FailsAs K (p >>= fun c => g c >>= f) w) :
    FailsAs K ((p >>= g) >>= f) w := by
  have hassoc : (p >>= g) >>= f = p >>= fun c => g c >>= f := Prog.bind_assoc p g f
  rw [hassoc]
  exact h

theorem failsAs_of_safe {p : M ErrorResponse α} {F : α → Prop} (hp : Safe op w₀ p F)
    (hw : Steady op w₀ w) : FailsAs (AsItWas op w₀) p w :=
  fun e w' hx => (hp w _ w' hw trivial hx).1.asItWas e

theorem failsAs_drop {p : M ErrorResponse α} (hp : FailsAs K p w) :
    FailsAs K (do let _ ← p) w :=
  failsAs_bind hp fun _ _ _ _ _ h => by cases h.1

theorem Steady.del (hw : Steady op w₀ w) {k : String}
    (hk : ∀ code ∈ op.code, ¬ (c = .webauthnData ∧ k = code)) : Steady op w₀ (w.del c k) where
  users := hw.users
  history := hw.history
  policy := hw.policy
  rules r hr := by
    rw [World.del_cache] at hr
    split at hr
    · cases hr
    · exact hw.rules r hr
  code k' hk' := by
    rw [World.del_cache, if_neg fun h => hk k' hk' ⟨h.1.symm, h.2.symm⟩]
    exact hw.code k' hk'
  link := hw.link
  clock := hw.clock

/-- The service request is found, and nothing happens, or it is not there. -/
theorem outcomes_findCode (hw : Steady op w₀ w) (hcode : op.code = some code) :
    Outcomes sem (WebauthnServiceReq.find code) w fun r w' => match r with
      | .ok d => w' = w ∧ ∃ v, w₀.cache .webauthnData code = some v ∧
          (v.bytes?.bind WebauthnServiceReq.decode).map Prod.fst = some d
      | .error (.err e) => AsItWas op w₀ e w'
      | .error (.panic _) => True := by
  refine outcomes_bind (outcomes_cacheGet (fun v d hv hd => ?_) (fun w₁ hw₁ => ?_) fun e => ?_)
  · refine outcomes_okOr (fun d' hd' => ?_) fun h => by cases h
    cases hd'
    rw [hw.code code hcode] at hv
    exact ⟨rfl, v, hv, hd⟩
  · refine outcomes_okOr (fun _ h => by cases h) fun _ => ?_
    have hdb : w₁.db = w.db := by
      rcases hw₁ with ⟨rfl, -⟩ | rfl
      · rfl
      · rfl
    have hsame := hw.asItWas codeNotFound
    refine ⟨?_, ?_, fun _ _ => .inr rfl, ?_⟩
    · rw [hdb]
      exact hsame.passwords
    · rw [hdb]
      exact hsame.history
    · rw [hdb]
      exact hsame.link
  · rcases e with e | msg
    · exact hw.asItWas e
    · trivial

/-- The MFA code is taken only where the change may go on. -/
theorem failsAs_checkMfaCode {P : Prop} {f : Unit → M ErrorResponse α} (hw : Steady op w₀ w)
    (hcode : op.code = some code) (h : ∀ d, AcceptsCode w₀ u code d → d.code ≠ code ∧ P)
    (hf : P → ∀ w, Steady op w₀ w → FailsAs (AsItWas op w₀) (f ()) w) :
    FailsAs (AsItWas op w₀) (u.checkMfaCode code >>= f) w := by
  have hcheck : Outcomes sem (u.checkMfaCode code) w fun r w' => match r with
      | .ok _ => P ∧ Steady op w₀ w'
      | .error (.err e) => AsItWas op w₀ e w'
      | .error (.panic _) => True := by
    refine outcomes_bind (outcomes_mono (outcomes_findCode hw hcode) fun r w₁ hr => ?_)
    rcases r with (e | msg) | d
    · exact hr
    · trivial
    obtain ⟨rfl, hfound⟩ := hr
    refine outcomes_bind (outcomes_throwIf (fun hid => ?_) fun _ => hw.asItWas _)
    obtain ⟨hne, hP⟩ := h d ⟨hfound, not_not.mp hid⟩
    have hdel : Steady op w₀ (w₁.del .webauthnData d.code) := by
      refine hw.del fun k hk => ?_
      rw [hcode] at hk
      cases hk
      exact fun he => hne he.2
    refine outcomes_cacheDel (fun e => hw.asItWas e) fun r => ?_
    rcases r with (e | msg) | a
    · exact hdel.asItWas e
    · trivial
    · exact ⟨hP, hdel⟩
  refine failsAs_bind (fun e w' hx => hcheck _ w' hx) fun _ w' hx => ?_
  obtain ⟨hP, hw'⟩ := hcheck _ w' hx
  exact hf hP w' hw'

theorem MagicLink.create_spares (uid : String) (lifetime : Int) (usage : MagicLinkUsage) :
    Spares c (MagicLink.create uid lifetime usage) := by
  refine spares_bind ⟨trivial, fun _ => trivial⟩ fun _ => spares_bind spares_unixTimestamp
    fun _ => ?_
  exact spares_bind ⟨trivial, fun _ => trivial⟩ fun _ =>
    spares_bind (spares_execute _) fun _ => trivial

theorem User.selfEmail_spares (email : Option String) :
    Spares c (u.selfEmail data email) := by
  unfold User.selfEmail
  split
  · trivial
  · split
    · exact spares_bind (spares_execute _) fun _ =>
        spares_bind (MagicLink.create_spares _ _ _) fun _ => trivial
    · trivial

theorem User.validatePassword_spares :
    Spares c (u.validatePassword data plain) := by
  have hcompare : Spares c (u.comparePassword data plain) := by
    unfold User.comparePassword User.matchPasswords
    split
    · trivial
    · exact spares_bind (spares_answer _) fun _ => within_throwIf _ _
  refine spares_bind (within_throwIf _ _) fun _ => ?_
  split
  · exact hcompare
  · refine spares_bind spares_unixTimestamp fun _ => ?_
    split
    · refine spares_bind (within_throwIf _ _) fun _ => spares_bind hcompare fun _ => ?_
      exact spares_bind (MagicLink.create_spares _ _ _) fun _ => trivial
    · exact hcompare

theorem User.find_spares (hc : CacheName.users ≠ c) (id : String) :
    Spares c (User.find id) := spares_cached hc (spares_fetchOne _ _)

theorem safe_findUser (id : String) : Safe op w₀ (User.find id) fun _ => True :=
  safe_of_touches (User.find_touches id) (User.find_spares (by decide) id)
    (fun _ _ => List.not_mem_nil) (.inr List.not_mem_nil) (by simp)

/-- A new password after the current one, or after the MFA code. -/
theorem failsAs_selfPassword {upd : UpdateUserSelfRequest} {P : Prop}
    {f : Option String → M ErrorResponse α} (hw : Steady op w₀ w) (hop : op.code = upd.mfaCode)
    (hlink : op.link = none)
    (h : match upd.passwordCurrent, upd.mfaCode with
      | some current, _ => CurrentPassword data w₀ u current → P
      | none, some code => ∀ d, AcceptsCode w₀ u code d → d.code ≠ code ∧ P
      | none, none => True)
    (hf : P → ∀ w, Steady op w₀ w → FailsAs (AsItWas op w₀) (f (some plain)) w) :
    FailsAs (AsItWas op w₀)
      (u.selfPassword data { upd with passwordNew := some plain } >>= f) w := by
  unfold User.selfPassword
  dsimp only
  rcases hcurrent : upd.passwordCurrent with - | current
  · rw [hcurrent] at h
    rcases hcode : upd.mfaCode with - | code
    · intro e w' hx
      rcases exec_bind.mp hx with ⟨_, he, hfail⟩ | ⟨_, _, hfail, -⟩
      · rw [show w' = w from hfail.2]
        exact hw.asItWas e
      · cases hfail.1
    · rw [hcode] at h
      dsimp only
      exact failsAs_assoc (failsAs_checkMfaCode hw (hop.trans hcode) h hf)
  · rw [hcurrent] at h
    have hsafe : Safe op w₀ (u.validatePassword data current) fun _ => True :=
      safe_of_touches (u.validatePassword_touches data current) User.validatePassword_spares
        (by simp [guarded]) (.inl hlink) (by simp)
    dsimp only
    refine failsAs_assoc (failsAs_bind (failsAs_of_safe hsafe hw) fun _ w' hx => ?_)
    have hcurrent' := CurrentPassword.of_exec hx
    refine hf (h ?_) w' (hsafe w _ w' hw trivial hx).1
    obtain ⟨hash, hhash, hok, hexp⟩ := hcurrent'
    refine ⟨hash, hhash, hok, fun exp he => ?_⟩
    have hle := hexp exp he
    have hclock := hw.clock
    omega

theorem safe_findLink {id : String} (hop : op.link = some id) : Safe op w₀ (MagicLink.find id)
    fun l => ((w₀.db .magicLinks).filter fun l => l.id == id).head? = some l := by
  intro w r w' hI _ hx
  obtain rfl := exec_fetchOne_world hx
  refine ⟨hI, fun l hr => ?_⟩
  rw [hr] at hx
  rw [← hI.link id hop]
  exact (exec_fetchOne.mp hx).1

theorem safe_validateLink {l : MagicLink} {uid : String} {req : HttpRequest} :
    Safe op w₀ (l.validate data uid req true) fun _ => ValidLink data w₀ req uid l := by
  have hspares : Spares .webauthnData (l.validate data uid req true) := by
    refine spares_bind (spares_answer _) fun _ => spares_bind ?_ fun _ => ?_
    · exact within_runIf fun _ => spares_answer _
    · refine spares_bind (within_throwIf _ _) fun _ => spares_bind spares_unixTimestamp fun _ => ?_
      exact spares_bind (within_throwIf _ _) fun _ => within_throwIf _ _
  intro w r w' hI htrue hx
  refine ⟨(safe_of_reads (l.validate_touches data uid req true) hspares w r w' hI htrue hx).1,
    fun _ hr => ?_⟩
  rw [hr] at hx
  have hvalid := ValidLink.of_exec hx
  have hexp := hvalid.exp
  have hclock := hI.clock
  exact ⟨hvalid.cookie, hvalid.csrf, hvalid.user, by omega, hvalid.unused⟩

theorem safe_resetRest {req : HttpRequest} {reqData : PasswordResetRequest}
    {f : MagicLink → User → M ErrorResponse α} (hop : op.link = some reqData.magicLinkId)
    (h : ResetHarmless data w₀ u req reqData) :
    Safe op w₀ (do
      let ml ← MagicLink.find reqData.magicLinkId
      ml.validate data u.id req true
      let user ← u.applyPasswordRules data reqData.password
      f ml user) fun _ => True := by
  refine hoare_seq (safe_findLink hop) fun l hl => hoare_seq safe_validateLink fun _ hvalid => ?_
  have hrefused := h l hl hvalid
  refine hoare_seq (safe_applyPasswordRules fun rules hrules => .inl (hrefused rules hrules))
    fun _ hu => ?_
  obtain ⟨-, -, rules, hrules, hnot⟩ := hu
  exact absurd (hrefused rules hrules) hnot

/-- **A refused change leaves everything as it was.** -/
theorem PasswordChange.Harmless.clean (hu : UniqueEmails w.db) (h : op.Harmless data w) :
    FailsAs (AsItWas op w) (op.prog data) w := by
  have hfind : ∀ {op : PasswordChange} (id : String) {r w'}, Exec sem (User.find id) w r w' →
      Steady op w w' := fun id r w' hx =>
    (safe_findUser id w r w' (Steady.refl _ w) trivial hx).1
  cases op with
  | update id upd user plain =>
      refine failsAs_drop ?_
      rcases user with - | u
      · have hread : FailsAs (AsItWas (.update id upd none plain) w) (User.find id) w :=
          failsAs_of_safe (safe_findUser id) (Steady.refl _ w)
        refine failsAs_bind (f := fun u => User.update data id { upd with password := some plain }
          (some u)) hread fun u w' hx => ?_
        exact failsAs_of_safe (safe_update hu (h u (.inr ⟨rfl, .of_exec hx⟩)) id) (hfind id hx)
      · exact failsAs_of_safe (safe_update hu (h u (.inl rfl)) id) (Steady.refl _ w)
  | updateSelf id upd plain =>
      refine failsAs_drop (failsAs_bind (failsAs_of_safe (safe_findUser id) (Steady.refl _ w))
        fun u w' hx => ?_)
      refine failsAs_selfPassword (hfind id hx) rfl rfl (h u (.of_exec hx))
        fun hharmless w₁ hw₁ => ?_
      have hemail : Safe (.updateSelf id upd plain) w (u.selfEmail data upd.email) fun _ => True :=
        safe_of_touches (u.selfEmail_touches _) (User.selfEmail_spares _) (by simp [guarded])
          (.inl rfl) (by simp)
      have hupdate : Safe (.updateSelf id upd plain) w (User.update data id
          { u.selfUpdate upd (some plain) with password := some plain } (some u)) fun _ => True :=
        safe_update hu hharmless id
      exact failsAs_of_safe (F := fun _ => True) (hoare_seq hemail fun _ _ =>
        hoare_seq hupdate fun _ _ => hoare_ret fun _ _ _ => trivial) hw₁
  | reset req userId reqData =>
      refine failsAs_drop (failsAs_bind (failsAs_of_safe (safe_findUser userId) (Steady.refl _ w))
        fun u w' hx => ?_)
      have hu' := h u (.of_exec hx)
      have hsteady : Steady (.reset req userId reqData) w w' := hfind userId hx
      unfold User.resetMfa
      split at hu'
      · next hwebauthn =>
          rw [if_pos hwebauthn]
          refine failsAs_assoc ?_
          rcases hcode : reqData.mfaCode with - | code
          · intro e w'' hfail
            rcases exec_bind.mp hfail with ⟨_, he, hfail⟩ | ⟨_, _, hfail, -⟩
            · rw [show w'' = w' from hfail.2]
              exact hsteady.asItWas e
            · cases hfail.1
          · refine failsAs_checkMfaCode hsteady hcode (hu' code hcode) fun hharmless w₁ hw₁ => ?_
            exact failsAs_of_safe (safe_resetRest rfl hharmless) hw₁
      · next hwebauthn =>
          rw [if_neg hwebauthn]
          exact failsAs_of_safe (safe_resetRest rfl hu') hsteady

end Clean

/-! ### Changes that leave everything as it was are refused -/

/-- A run has come so far without writing what the rules are about. -/
structure Reached (w₀ w : World) : Prop where
  users : w.db .users = w₀.db .users
  history : w.db .recentPasswords = w₀.db .recentPasswords
  policy : w.db .passwordPolicy = w₀.db .passwordPolicy
  cached : w.cache .c12hr = w₀.cache .c12hr

section Writes

variable {α β : Type} {K : ErrorResponse → World → Prop} {op : PasswordChange} {data : AppState}
  {w₀ w w' : World} {u : User} {plain code : String} {rules : PasswordPolicy}
  {f : β → M ErrorResponse α}

theorem FailsAs.left {p : M ErrorResponse β} (h : FailsAs K (p >>= f) w) : FailsAs K p w :=
  fun e w' hp => h e w' (exec_bind.mpr (.inl ⟨_, rfl, hp⟩))

theorem FailsAs.run {p : M ErrorResponse β} {b : β} (h : FailsAs K (p >>= f) w)
    (hx : Exec sem p w (.ok b) w') : FailsAs K (f b) w' :=
  fun e w₁ hf => h e w₁ (exec_bind.mpr (.inr ⟨b, w', hx, hf⟩))

theorem FailsAs.of_assoc {γ : Type} {p : M ErrorResponse γ} {g : γ → M ErrorResponse β}
    (h : FailsAs K ((p >>= g) >>= f) w) :
    FailsAs K (p >>= fun c => g c >>= f) w := by
  have hassoc : (p >>= g) >>= f = p >>= fun c => g c >>= f := Prog.bind_assoc p g f
  rwa [hassoc] at h

/-- The statements may be applied although the call fails. -/
theorem FailsAs.execute {ss : List DbWrite} {db : Db} (h : FailsAs K (execute ss) w)
    (hdb : Commits ss w.db db) : K default { w with db } :=
  h default _ (exec_call.mpr ⟨.error default, _, sem_execute.mpr (.inr ⟨db, hdb, rfl⟩), rfl, rfl⟩)

theorem FailsAs.cacheDel {c : CacheName} {k : String} (h : FailsAs K (cacheDel c k) w) :
    K default (w.del c k) :=
  h default _ (exec_call.mpr ⟨.error default, _, sem_cacheDel.mpr (.inr ⟨_, rfl, .inr rfl⟩), rfl,
    rfl⟩)

theorem Reached.of_run {p : M ErrorResponse α} {r : Except (Fault ErrorResponse) α}
    {ts : List Table} {cs : List (CacheName × Slot)} (hw : Reached w₀ w) (ht : Touches ts cs p)
    (hs : Spares .c12hr p) (hts : ∀ t ∈ guarded, t ∉ ts) (hx : Exec sem p w r w') :
    Reached w₀ w' where
  users := ((ht.frame hx).db _ (hts _ (by simp [guarded]))).trans hw.users
  history := ((ht.frame hx).db _ (hts _ (by simp [guarded]))).trans hw.history
  policy := ((ht.frame hx).db _ (hts _ (by simp [guarded]))).trans hw.policy
  cached := (hs.cache hx).trans hw.cached

theorem Reached.served (hw : Reached w₀ w) (h : ServedPolicy w₀ rules) : ServedPolicy w rules := by
  unfold ServedPolicy
  rw [hw.policy, hw.cached]
  exact h

theorem Reached.recentRows (hw : Reached w₀ w) (uid : String) :
    Rauthy.recentRows w uid = Rauthy.recentRows w₀ uid := by
  rw [Rauthy.recentRows, hw.history]
  rfl

theorem Reached.taken (hw : Reached w₀ w) (k : String) :
    Reached w₀ (w.del .webauthnData k) where
  users := hw.users
  history := hw.history
  policy := hw.policy
  cached := by
    rw [← hw.cached]
    funext k'
    rw [World.del_cache, if_neg fun h => by cases h.1]

theorem checkPolicy_of_not_refused (h : ¬ Refused data w u rules plain) :
    User.checkPolicy data rules plain = .ok () := by
  rcases hcheck : User.checkPolicy data rules plain with e | ⟨⟩
  · exact absurd (.inl ⟨e, hcheck⟩) h
  · rfl

theorem exec_hashPassword (plain hash : String) :
    Exec sem (call (.hashPassword plain) answer : M ErrorResponse String) w (.ok hash) w :=
  exec_call.mpr ⟨.ok hash, w, ⟨.rand hash, rfl⟩, rfl, rfl⟩

/-- A first row of the user would be a change of the history. -/
theorem FailsAs.not_create {hash : String} (hw : w.db .recentPasswords = w₀.db .recentPasswords)
    (hu : NoHistory w u) :
    ¬ FailsAs (AsItWas op w₀) (RecentPasswordsEntity.create u.id hash) w := by
  intro h
  have hkept : Function.update w.db .recentPasswords (w.db .recentPasswords ++ [⟨u.id, hash⟩])
      .recentPasswords = w₀.db .recentPasswords := (h.execute (hu.commits hash)).history
  rw [Function.update_self, ← hw] at hkept
  have hlen := congrArg List.length hkept
  rw [List.length_append, List.length_singleton] at hlen
  omega

theorem FailsAs.not_saveRecent {row : RecentPasswordsEntity} {passwords : String}
    (hw : w.db .recentPasswords = w₀.db .recentPasswords) (hrow : row ∈ w.db .recentPasswords)
    (hne : passwords ≠ row.passwords) :
    ¬ FailsAs (AsItWas op w₀) (RecentPasswordsEntity.save { row with passwords }) w := by
  intro h
  have hkept := (h.execute (Commits.of_emails rfl rfl)).history
  change Function.update w.db .recentPasswords _ .recentPasswords = _ at hkept
  rw [Function.update_self, ← hw] at hkept
  have hsame := List.map_inj_left.mp (hkept.trans (List.map_id _).symm) row hrow
  rw [if_pos (beq_self_eq_true _)] at hsame
  exact hne (congrArg RecentPasswordsEntity.passwords hsame)

theorem FailsAs.notRecorded (h : FailsAs (AsItWas op w₀) (u.applyPasswordRules data plain) w)
    (hw : Reached w₀ w) (hrules : ServedPolicy w₀ rules)
    (hnot : ¬ Refused data w₀ u rules plain) : rules.notRecentlyUsed = none := by
  by_contra hsome
  obtain ⟨n, hn⟩ := Option.ne_none_iff_exists'.mp hsome
  obtain ⟨w₁, hfind, hdb, -, -⟩ := (hw.served hrules).exec
  have hrows : recentRows w₁ u.id = recentRows w₀ u.id := by
    rw [← hw.recentRows, recentRows, recentRows, hdb]
  have hhistory : w₁.db .recentPasswords = w₀.db .recentPasswords := by rw [hdb, hw.history]
  have hcheck : Exec sem (answer (User.checkPolicy data rules plain)) w₁ (.ok ()) w₁ :=
    exec_answer.mpr ⟨checkPolicy_of_not_refused hnot, rfl⟩
  have hrecent : ∀ hash, FailsAs (AsItWas op w₀) (u.updateRecent data plain hash n) w₁ := by
    intro hash
    have hloop := (((h.run hfind).run hcheck).run (exec_hashPassword plain hash)).left
    rw [hn] at hloop
    exact FailsAs.left (f := fun _ => .ret ()) hloop
  rcases hrow : (recentRows w₀ u.id).head? with - | row
  · have hfail : Exec sem (RecentPasswordsEntity.find u.id) w₁ (.error (.err default)) w₁ :=
      exec_bind.mpr (.inl ⟨_, rfl, exec_call.mpr ⟨.error default, w₁,
        sem_select.mpr ⟨rfl, .inr ⟨_, rfl⟩⟩, rfl, rfl⟩⟩)
    have htried : Exec sem (attempt (RecentPasswordsEntity.find u.id) : M ErrorResponse _) w₁
        (.ok (.error default)) w₁ := exec_tried.mpr hfail
    refine FailsAs.not_create hhistory (fun r hr hid => ?_) ((hrecent "hash").run htried)
    have hmem : r ∈ recentRows w₁ u.id := List.mem_filter.mpr ⟨hr, beq_iff_eq.mpr hid⟩
    rw [hrows, List.head?_eq_none_iff.mp hrow] at hmem
    cases hmem
  · have hfound : Exec sem (RecentPasswordsEntity.find u.id) w₁ (.ok row) w₁ := by
      refine exec_fetchOne.mpr ⟨?_, rfl⟩
      show (recentRows w₁ u.id).head? = _
      rw [hrows, hrow]
    have htried : Exec sem (attempt (RecentPasswordsEntity.find u.id) : M ErrorResponse _) w₁
        (.ok (.ok row)) w₁ := exec_tried.mpr hfound
    rcases hloop : User.checkRecent data plain n 1 (Text.split '\n' row.passwords) with e | kept
    · exact hnot (.inr ⟨n, hn, row, hrow, e, hloop⟩)
    have hmem : row ∈ w₁.db .recentPasswords := by
      rw [hhistory]
      exact (List.mem_filter.mp (List.mem_of_head? hrow)).1
    -- any hash may be drawn, also one that is as long as all that is stored
    have hsave := ((hrecent row.passwords).run htried).run (exec_answer.mpr ⟨hloop, rfl⟩)
    refine FailsAs.not_saveRecent hhistory hmem (fun heq => ?_) hsave
    have hlen := congrArg (fun s => s.toList.length) heq
    simp only [String.toList_append, List.length_append] at hlen
    have hline : "\n".toList.length = 1 := rfl
    omega

/-- Nothing stands in the way of a hash that is not recorded. -/
theorem exists_applied (hrules : ServedPolicy w rules)
    (hcheck : User.checkPolicy data rules plain = .ok ()) (hnone : rules.notRecentlyUsed = none)
    (hash : String) : ∃ expires w', Exec sem (u.applyPasswordRules data plain) w
        (.ok { u with password := some hash, passwordExpires := expires }) w' ∧
      w'.db = w.db ∧ w'.clock = w.clock := by
  obtain ⟨w₁, hfind, hdb, hclock, -⟩ := hrules.exec
  obtain ⟨expires, hexpires⟩ : ∃ expires,
      Exec sem (u.newPasswordExpires data rules) w₁ (.ok expires) w₁ := by
    unfold User.newPasswordExpires
    split
    · exact ⟨none, rfl, rfl⟩
    · split
      · exact ⟨none, rfl, rfl⟩
      · exact ⟨_, exec_bind_ok.mpr ⟨_, w₁, exec_time, rfl, rfl⟩⟩
  refine ⟨expires, w₁, exec_bind_ok.mpr ⟨rules, w₁, hfind, ?_⟩, hdb, hclock⟩
  refine exec_bind_ok.mpr ⟨(), w₁, exec_answer.mpr ⟨hcheck, rfl⟩, ?_⟩
  refine exec_bind_ok.mpr ⟨hash, w₁, exec_hashPassword plain hash, ?_⟩
  refine exec_bind_ok.mpr ⟨(), w₁, ?_, exec_bind_ok.mpr ⟨expires, w₁, hexpires, rfl, rfl⟩⟩
  rw [hnone]
  exact ⟨rfl, rfl⟩

end Writes

section Writes

variable {α β : Type} {op : PasswordChange} {data : AppState} {w₀ w w' : World} {u : User}
  {plain code : String} {rules : PasswordPolicy}

/-- The row of a user may get an e-mail that no other user has. -/
theorem commits_saveStmt (hid : UniqueKey User.id (w.db .users)) (hemail : UniqueEmails w.db)
    (hfree : ∀ r ∈ w.db .users, r.email = u.email → r.id = u.id) :
    Commits [u.saveStmt] w.db (Function.update w.db .users ((w.db .users).map fun r =>
      if (r.id == u.id) = true then { u with id := r.id, createdAt := r.createdAt } else r)) := by
  refine ⟨rfl, fun _ => ?_⟩
  show (List.map User.email (Function.update w.db .users _ .users)).Nodup
  rw [Function.update_self, List.map_map]
  have hrows : (w.db .users).Nodup := List.Nodup.of_map _ hid
  refine hrows.map_on fun x hx y hy hxy => ?_
  simp only [Function.comp_apply] at hxy
  split at hxy
  · next hx' =>
      split at hxy
      · next hy' => exact hid.inj hx hy ((beq_iff_eq.mp hx').trans (beq_iff_eq.mp hy').symm)
      · next hy' => exact absurd (beq_iff_eq.mpr (hfree y hy hxy.symm)) hy'
  · next hx' =>
      split at hxy
      · next hy' => exact absurd (beq_iff_eq.mpr (hfree x hx hxy)) hx'
      · next hy' => exact hemail.inj hx hy hxy

theorem FailsAs.not_saveStmt {r : User} (hid : UniqueKey User.id (w₀.db .users))
    (hemail : UniqueEmails w₀.db) (hw : w.db .users = w₀.db .users) (hr : r ∈ w₀.db .users)
    (hru : r.id = u.id) (hne : r.password ≠ u.password)
    (hfree : ∀ r ∈ w₀.db .users, r.email = u.email → r.id = u.id) :
    ¬ FailsAs (AsItWas op w₀) (Rauthy.execute [u.saveStmt]) w := by
  intro h
  have hcommits : Commits [u.saveStmt] w.db _ := commits_saveStmt (by rw [hw]; exact hid)
    (by rw [UniqueEmails, hw]; exact hemail) (by rw [hw]; exact hfree)
  have hkept : ((Function.update w.db .users ((w.db .users).map fun r =>
      if (r.id == u.id) = true then { u with id := r.id, createdAt := r.createdAt } else r))
        .users).map (fun u => (u.id, u.password)) =
      (w₀.db .users).map fun u => (u.id, u.password) := (h.execute hcommits).passwords
  rw [Function.update_self, hw, List.map_map] at hkept
  have hsame := List.map_inj_left.mp hkept r hr
  rw [Function.comp_apply, if_pos (beq_iff_eq.mpr hru)] at hsame
  exact hne (congrArg Prod.snd hsame).symm

/-- An update that leaves everything as it was stops early, or it has nothing to write. -/
theorem FailsAs.updateHarmless {upd : UpdateUserRequest} {id : String}
    (hid : UniqueKey User.id (w₀.db .users)) (hemail : UniqueEmails w₀.db) (hw : Reached w₀ w)
    (h : FailsAs (AsItWas op w₀)
      (User.update data id { upd with password := some plain } (some u)) w) :
    UpdateHarmless data w₀ u upd.email plain := by
  intro rules hrules
  by_contra hnot
  rw [not_or] at hnot
  obtain ⟨hrefused, hwrite⟩ := hnot
  have hold : Exec sem (User.findUnless id (some u)) w (.ok u) w := ⟨rfl, rfl⟩
  have hfields := h.run hold
  have hnone : rules.notRecentlyUsed = none := hfields.left.left.notRecorded hw hrules hrefused
  have hwritable : Writable w₀ u.id (data.toLowercase upd.email) := by
    by_contra hn
    exact hwrite ⟨hnone, hn⟩
  obtain ⟨⟨r, hr, hru⟩, hfree⟩ := hwritable
  -- any hash may be drawn, also one that is not in the row
  obtain ⟨hash, hne⟩ : ∃ hash : String, r.password ≠ some hash := by
    rcases r.password with - | old
    · exact ⟨"", fun h => by cases h⟩
    · refine ⟨old ++ "x", fun heq => ?_⟩
      have hlen := congrArg (fun s => s.toList.length) (Option.some.inj heq)
      simp only [String.toList_append, List.length_append] at hlen
      have hx : "x".toList.length = 1 := rfl
      omega
  obtain ⟨expires, w₁, happly, hdb₁, -⟩ := exists_applied (u := { u with
      email := data.toLowercase upd.email, givenName := upd.givenName, familyName := upd.familyName,
      language := upd.language.getD u.language }) (hw.served hrules)
    (checkPolicy_of_not_refused hrefused) hnone hash
  have hrolesAnswer : CanAnswer (Role.sanitize upd.roles) :=
    canAnswer_bind (canAnswer_cached (canAnswer_select _ _)) fun _ => canAnswer_ret _
  have hgroupsAnswer : CanAnswer (Group.sanitize upd.groups) := by
    cases upd.groups with
    | none => exact canAnswer_ret _
    | some gs =>
        exact canAnswer_bind (canAnswer_cached (canAnswer_select _ _)) fun _ => canAnswer_ret _
  obtain ⟨roles, w₂, hroles, -, -⟩ := hrolesAnswer w₁
  obtain ⟨groups, w₃, hgroups, -, -⟩ := hgroupsAnswer w₂
  have husers : w₃.db .users = w₀.db .users := by
    rw [((Group.sanitize_touches _).frame hgroups).db _ List.not_mem_nil,
      ((Role.sanitize_touches _).frame hroles).db _ List.not_mem_nil, hdb₁, hw.users]
  have hsave := hfields.run (exec_bind_ok.mpr ⟨_, w₁, happly, exec_bind_ok.mpr ⟨roles, w₂, hroles,
    exec_bind_ok.mpr ⟨groups, w₃, hgroups, rfl, rfl⟩⟩⟩)
  -- the e-mail looks free when the look-up fails
  have hlookup : ∀ (c : Prop) [Decidable c] (email : String),
      Exec sem (runIf c (User.isEmailFree data email)) w₃ (.ok ()) w₃ := by
    intro c _ email
    unfold runIf
    split
    · have hfail : Exec sem (User.findByEmail data email) w₃ (.error (.err default)) w₃ :=
        exec_bind.mpr (.inl ⟨_, rfl, exec_bind.mpr (.inl ⟨_, rfl, exec_call.mpr
          ⟨.error default, w₃, sem_cacheGet.mpr (.inr (.inr ⟨_, rfl, rfl⟩)), rfl, rfl⟩⟩)⟩)
      have htried : Exec sem (attempt (User.findByEmail data email) : M ErrorResponse _) w₃
          (.ok (.error default)) w₃ := exec_tried.mpr hfail
      exact exec_bind_ok.mpr ⟨_, w₃, htried, rfl, rfl⟩
    · exact ⟨rfl, rfl⟩
  have hstmt := (hsave.left.run (hlookup _ _)).left
  refine FailsAs.not_saveStmt hid hemail husers hr ?_ ?_ ?_ hstmt
  · exact hru
  · exact hne
  · exact hfree

theorem FailsAs.checkMfaCode {f : Unit → M ErrorResponse α} {d : WebauthnServiceReq}
    (h : FailsAs (AsItWas op w₀) (u.checkMfaCode code >>= f) w) (hcode : op.code = some code)
    (hw : w.cache .webauthnData = w₀.cache .webauthnData) (hd : AcceptsCode w₀ u code d) :
    d.code ≠ code ∧ FailsAs (AsItWas op w₀) (f ()) (w.del .webauthnData d.code) := by
  obtain ⟨⟨v, hv, hdecode⟩, hid⟩ := hd
  have hfind : Exec sem (WebauthnServiceReq.find code) w (.ok d) w := by
    refine exec_bind_ok.mpr ⟨some d, w, exec_cacheGet.mpr (.inr ⟨d, v, rfl, ?_, hdecode, rfl⟩), ?_⟩
    · rw [hw]
      exact hv
    · exact ⟨rfl, rfl⟩
  have huser : Exec sem (throwIf (d.userId ≠ u.id) (err .forbidden "User ID does not match") :
      M ErrorResponse Unit) w (.ok ()) w := exec_throwIf_ok.mpr ⟨not_not.mpr hid, rfl⟩
  constructor
  · intro he
    have hkept := ((h.left.run hfind).run huser).cacheDel.code code hcode
    rw [World.del_cache, if_pos ⟨rfl, he.symm⟩, hv] at hkept
    rcases hkept with hkept | hkept
    · cases hkept
    · exact absurd hkept (by decide)
  · exact h.run (exec_bind_ok.mpr ⟨d, w, hfind, exec_bind_ok.mpr ⟨(), w, huser,
      exec_cacheDel.mpr rfl⟩⟩)

/-- A reset that leaves everything as it was has no link, or no password that is accepted. -/
theorem FailsAs.resetHarmless {req : HttpRequest} {reqData : PasswordResetRequest}
    {f : MagicLink → User → M ErrorResponse α} (hop : op.link = some reqData.magicLinkId)
    (hw : Reached w₀ w) (hlinks : w.db .magicLinks = w₀.db .magicLinks)
    (hclock : w.clock = w₀.clock)
    (h : FailsAs (AsItWas op w₀) (do
      let ml ← MagicLink.find reqData.magicLinkId
      ml.validate data u.id req true
      let user ← u.applyPasswordRules data reqData.password
      ml.invalidate
      f ml user) w) : ResetHarmless data w₀ u req reqData := by
  intro l hl hvalid rules hrules
  by_contra hrefused
  have hfind : Exec sem (MagicLink.find reqData.magicLinkId) w (.ok l) w := by
    refine exec_fetchOne.mpr ⟨?_, rfl⟩
    rw [hlinks]
    exact hl
  have hvalid' : ValidLink data w req u.id l :=
    ⟨hvalid.cookie, hvalid.csrf, hvalid.user, by rw [hclock]; exact hvalid.exp, hvalid.unused⟩
  have hchange := (h.run hfind).run hvalid'.exec
  have hnone := hchange.left.notRecorded hw hrules hrefused
  obtain ⟨expires, w₁, happly, hdb, hclock₁⟩ := exists_applied (u := u) (hw.served hrules)
    (checkPolicy_of_not_refused hrefused) hnone "hash"
  -- the link expires at once, although it was still alive
  have hsave := ((hchange.run happly).left.run exec_time).execute (.of_emails rfl rfl)
  have hkept : ((Function.update w₁.db .magicLinks ((w₁.db .magicLinks).map fun r =>
      if (r.id == l.id) = true then
        { r with cookie := l.cookie, exp := w₁.clock / 1000 - 10, used := l.used } else r))
        .magicLinks).filter (fun r => r.id == reqData.magicLinkId) =
      (w₀.db .magicLinks).filter fun r => r.id == reqData.magicLinkId := hsave.link _ hop
  have hmem := List.mem_of_head? hl
  have hid : l.id = reqData.magicLinkId := beq_iff_eq.mp (List.mem_filter.mp hmem).2
  rw [Function.update_self, hid, hdb, hlinks, filter_map_update (fun r : MagicLink =>
    r.id == reqData.magicLinkId) (fun r => { r with
      cookie := l.cookie, exp := w₁.clock / 1000 - 10, used := l.used }) fun _ => rfl] at hkept
  have hsame := List.map_inj_left.mp (hkept.trans (List.map_id _).symm) l hmem
  have hexp : w₁.clock / 1000 - 10 = l.exp := congrArg MagicLink.exp hsame
  have halive := hvalid.exp
  rw [hclock₁, hclock] at hexp
  omega

theorem exists_createLink (hissued : w.issued.length + (w.db .magicLinks).length + 1 < 62 ^ 16)
    (uid : String) (lifetime : Int) (usage : MagicLinkUsage) :
    ∃ l w', Exec sem (MagicLink.create uid lifetime usage) w (.ok l) w' := by
  obtain ⟨id, hid⟩ := exists_getRand (n := 64)
    (w := { w with issued := w.issued ++ (w.db .magicLinks).map MagicLink.id }) (by omega) (by
      show (w.issued ++ (w.db .magicLinks).map MagicLink.id).length < _
      rw [List.length_append, List.length_map]
      omega)
  obtain ⟨_, hsome, hstep⟩ := exec_op.mp hid
  cases hsome
  obtain ⟨hnew, hlen, halnum, -⟩ := sem_getRand.mp hstep
  rw [List.mem_append, not_or] at hnew
  have hdraw : Exec sem (getRand 64 : M ErrorResponse String) w (.ok id)
      { w with issued := id :: w.issued } :=
    exec_op.mpr ⟨_, rfl, sem_getRand.mpr ⟨hnew.1, hlen, halnum, rfl⟩⟩
  obtain ⟨csrf, hcsrf⟩ := exists_getRand (n := 48) (w := { w with issued := id :: w.issued })
    (by omega) (by
      show w.issued.length + 1 < _
      omega)
  have hinsert : ∀ l : MagicLink, l.id = id → Commits [.insert .magicLinks l] w.db
      (Function.update w.db .magicLinks (w.db .magicLinks ++ [l])) := by
    intro l hl
    refine .of_insert (by decide) fun r hr => beq_eq_false_iff_ne.mpr fun he => hnew.2 ?_
    exact List.mem_map.mpr ⟨r, hr, he.symm.trans hl⟩
  exact ⟨_, _, exec_bind_ok.mpr ⟨id, _, hdraw, exec_bind_ok.mpr ⟨_, _, exec_time,
    exec_bind_ok.mpr ⟨csrf, _, hcsrf, exec_bind_ok.mpr ⟨(), _,
      exec_execute.mpr ⟨_, hinsert _ rfl, rfl⟩, rfl, rfl⟩⟩⟩⟩⟩

/-- The e-mail of the request is sent a link, if it is a new one. -/
theorem exists_selfEmail (hissued : w.issued.length + (w.db .magicLinks).length + 1 < 62 ^ 16)
    (email : Option String) : ∃ b w', Exec sem (u.selfEmail data email) w (.ok b) w' := by
  unfold User.selfEmail
  rcases email.map data.toLowercase with - | email
  · exact ⟨false, w, rfl, rfl⟩
  dsimp only
  split
  · obtain ⟨w₁, hold, hroom⟩ : ∃ w₁,
        Exec sem (MagicLink.invalidateAllEmailChange u.id) w (.ok ()) w₁ ∧
        w₁.issued.length + (w₁.db .magicLinks).length + 1 < 62 ^ 16 := by
      refine ⟨_, exec_execute.mpr ⟨_, .of_emails rfl rfl, rfl⟩, lt_of_le_of_lt ?_ hissued⟩
      show _ + (Function.update w.db .magicLinks _ .magicLinks).length + 1 ≤ _
      rw [Function.update_self]
      exact Nat.add_le_add_right (Nat.add_le_add_left (List.length_filter_le _ _) _) 1
    obtain ⟨l, w', hl⟩ := exists_createLink hroom u.id 60 (.emailChange email)
    exact ⟨true, w', exec_bind_ok.mpr ⟨(), w₁, hold, exec_bind_ok.mpr ⟨l, w', hl, rfl, rfl⟩⟩⟩
  · exact ⟨false, w, rfl, rfl⟩

end Writes

/-- A change that leaves everything as it was, whatever happens, is refused. -/
theorem PasswordChange.harmless_of_clean {data : AppState} {op : PasswordChange} {w : World}
    (hid : UniqueKey User.id (w.db .users)) (hemail : UniqueEmails w.db)
    (hissued : w.issued.length + (w.db .magicLinks).length + 1 < 62 ^ 16)
    (h : FailsAs (AsItWas op w) (op.prog data) w) : op.Harmless data w := by
  have hfound : ∀ {id : String} {u : User}, ServedUser w id u → ∃ w₁,
      Exec sem (User.find id) w (.ok u) w₁ ∧ Reached w w₁ ∧ w₁.db = w.db ∧ w₁.clock = w.clock ∧
        w₁.issued = w.issued ∧ w₁.cache .webauthnData = w.cache .webauthnData := by
    intro id u hu
    obtain ⟨w₁, hx, hdb, hclock, hissued⟩ := hu.exec
    exact ⟨w₁, hx, ⟨by rw [hdb], by rw [hdb], by rw [hdb],
      (User.find_spares (by decide) id).cache hx⟩, hdb, hclock, hissued,
      (User.find_spares (by decide) id).cache hx⟩
  have hstart : Reached w w := ⟨rfl, rfl, rfl, rfl⟩
  cases op with
  | update id upd user plain =>
      rintro u (rfl | ⟨rfl, hu⟩)
      · exact h.left.updateHarmless hid hemail hstart
      · obtain ⟨w₁, hx, hw₁, -⟩ := hfound hu
        have hrest : FailsAs (AsItWas (.update id upd none plain) w)
            (User.update data id { upd with password := some plain } (some u)) w₁ :=
          FailsAs.run (f := fun u =>
            User.update data id { upd with password := some plain } (some u)) h.left hx
        exact hrest.updateHarmless hid hemail hw₁
  | updateSelf id upd plain =>
      intro u hu
      obtain ⟨w₁, hx, hw₁, hdb, hclock, hdrawn, hcodes⟩ := hfound hu
      have hrest := h.left.run hx
      -- from the password to the update
      have hupdate : ∀ {w₂ : World}, Reached w w₂ → w₂.db = w₁.db → w₂.issued = w₁.issued →
          FailsAs (AsItWas (.updateSelf id upd plain) w) (do
            let emailUpdated ← u.selfEmail data upd.email
            let updated ← User.update data id (u.selfUpdate upd (some plain)) (some u)
            return (updated.1, updated.2.1, emailUpdated)) w₂ →
          UpdateHarmless data w u u.email plain := by
        intro w₂ hw₂ hdb₂ hdrawn₂ h₂
        have hroom : w₂.issued.length + (w₂.db .magicLinks).length + 1 < 62 ^ 16 := by
          rw [hdb₂, hdrawn₂, hdb, hdrawn]
          exact hissued
        obtain ⟨b, w₃, hemailed⟩ : ∃ b w₃,
            Exec sem (u.selfEmail data upd.email) w₂ (.ok b) w₃ := exists_selfEmail hroom upd.email
        have hw₃ : Reached w w₃ := hw₂.of_run (u.selfEmail_touches upd.email)
          (User.selfEmail_spares upd.email) (by simp [guarded]) hemailed
        have hwritten : FailsAs (AsItWas (.updateSelf id upd plain) w) (User.update data id
            { u.selfUpdate upd (some plain) with password := some plain } (some u)) w₃ :=
          (h₂.run hemailed).left
        exact hwritten.updateHarmless hid hemail hw₃
      unfold User.selfPassword at hrest
      dsimp only at hrest
      rcases hcurrent : upd.passwordCurrent with - | current
      · rcases hcode : upd.mfaCode with - | code
        · trivial
        intro d hd
        rw [hcurrent, hcode] at hrest
        dsimp only at hrest
        obtain ⟨hne, htaken⟩ := (hrest.of_assoc).checkMfaCode hcode hcodes hd
        exact ⟨hne, hupdate (hw₁.taken d.code) rfl rfl htaken⟩
      · intro hvalid
        rw [hcurrent] at hrest
        have hvalid' : CurrentPassword data w₁ u current := by
          obtain ⟨hash, hhash, hok, hexp⟩ := hvalid
          exact ⟨hash, hhash, hok, by rw [hclock]; exact hexp⟩
        exact hupdate hw₁ rfl rfl (hrest.run (exec_bind_ok.mpr ⟨(), w₁, hvalid'.exec, rfl, rfl⟩))
  | reset req userId reqData =>
      intro u hu
      obtain ⟨w₁, hx, hw₁, hdb, hclock, -, hcodes⟩ := hfound hu
      have hrest := h.left.run hx
      unfold User.resetMfa at hrest
      split
      · next hwebauthn =>
          intro code hcode d hd
          rw [if_pos hwebauthn] at hrest
          have hcode' : Exec sem (okOr (err .badRequest "MFA code is missing") reqData.mfaCode :
              M ErrorResponse String) w₁ (.ok code) w₁ := by
            rw [show reqData.mfaCode = some code from hcode]
            exact ⟨rfl, rfl⟩
          obtain ⟨hne, htaken⟩ := ((hrest.of_assoc).run hcode').checkMfaCode hcode hcodes hd
          exact ⟨hne, FailsAs.resetHarmless rfl (hw₁.taken d.code) (congrFun hdb _) hclock htaken⟩
      · next hwebauthn =>
          rw [if_neg hwebauthn] at hrest
          have hno : Exec sem (pure () : M ErrorResponse Unit) w₁ (.ok ()) w₁ := ⟨rfl, rfl⟩
          exact FailsAs.resetHarmless rfl hw₁ (congrFun hdb _) hclock (hrest.run hno)

/-- **Failed changes.**  A change of a password that fails, for whatever reason and wherever it
does, leaves the passwords, the history, the MFA code and the magic link as they were if and only if
it is refused before the first of them is written. -/
theorem failed_change_iff (data : AppState) (op : PasswordChange) (w : World)
    (hid : UniqueKey User.id (w.db .users)) (hemail : UniqueEmails w.db)
    (hissued : w.issued.length + (w.db .magicLinks).length + 1 < 62 ^ 16) :
    (∀ e w', Exec sem (op.prog data) w (.error (.err e)) w' → AsItWas op w e w') ↔
      op.Harmless data w :=
  ⟨fun h => PasswordChange.harmless_of_clean hid hemail hissued h, fun h => h.clean hemail⟩

/-- Alice and Bob, and a policy that looks back -/
def aliceAndBob : World where
  clock := 0
  issued := []
  db
    | .users => [sampleUser, { sampleUser with id := "bob", email := "bob@example.com" }]
    | .passwordPolicy => [recentRules]
    | _ => []
  cache _ _ := none

/-- An admin sets the e-mail of Alice. -/
def emailUpdate (email : String) : UpdateUserRequest :=
  { (default : UpdateUserRequest) with email, enabled := true }

theorem uniqueKey_aliceAndBob : UniqueKey User.id (aliceAndBob.db .users) := by
  show ["alice", "bob"].Nodup
  decide

theorem uniqueEmails_aliceAndBob : UniqueEmails aliceAndBob.db := by
  show ["alice@localhost", "bob@example.com"].Nodup
  decide

/-- A password that is too short is refused before anything is written. -/
theorem failed_change_iff_short :
    (PasswordChange.update "alice" (emailUpdate "alice@localhost") (some sampleUser) "abc").Harmless
      sampleState aliceAndBob ∧
    ∀ e w', Exec sem ((PasswordChange.update "alice" (emailUpdate "alice@localhost")
        (some sampleUser) "abc").prog sampleState) aliceAndBob (.error (.err e)) w' →
      AsItWas (.update "alice" (emailUpdate "alice@localhost") (some sampleUser) "abc")
        aliceAndBob e w' := by
  have hharmless : (PasswordChange.update "alice" (emailUpdate "alice@localhost")
      (some sampleUser) "abc").Harmless sampleState aliceAndBob := by
    rintro u (h | ⟨h, -⟩)
    · cases h
      rintro rules (hrules | hrules)
      · cases hrules
      · cases hrules
        exact .inl (.inl ⟨_, rfl⟩)
    · cases h
  refine ⟨hharmless, (failed_change_iff sampleState _ aliceAndBob uniqueKey_aliceAndBob
    uniqueEmails_aliceAndBob ?_).mpr hharmless⟩
  show 0 + 0 + 1 < 62 ^ 16
  decide

/-- The e-mail of the request belongs to Bob: the update fails, and the password that has not been
set is one of the recent passwords of Alice. -/
theorem unset_password_recorded :
    ¬ ∀ (data : AppState) (op : PasswordChange) (w : World) (e : ErrorResponse) (w' : World),
      UniqueKey User.id (w.db .users) → UniqueEmails w.db →
      Exec sem (op.prog data) w (.error (.err e)) w' → AsItWas op w e w' := by
  intro hall
  obtain ⟨r, w', hx, hr⟩ := Pool.exists_exec_of_choices Op.run
    ((PasswordChange.update "alice" (emailUpdate "bob@example.com") (some sampleUser) "first").prog
      sampleState)
    [.ok, .ok, .ok, .rand "hash", .ok, .ok, .ok, .ok, .ok, .ok, .ok, .ok] aliceAndBob
    (fun r w' => (errorOf r).isSome && decide (w'.db .recentPasswords ≠ []))
    (by decide +kernel)
  obtain ⟨hfailed, hrecorded⟩ := Bool.and_eq_true_iff.mp hr
  rcases r with (e | msg) | u
  · have hkept := hall sampleState _ _ e w' uniqueKey_aliceAndBob uniqueEmails_aliceAndBob hx
    exact of_decide_eq_true hrecorded hkept.history
  · cases hfailed
  · cases hfailed

end Rauthy
