/-
Rauthy/SelfUpdates.lean

What users may change about themselves.  `update_self_req` turns the request into the update of an
admin, in which everything else has the values of the user: roles and groups are read, checked
against their tables and written again.

An update lowers the e-mail.  A user who was created by a login with a provider may have an e-mail
with capital letters, which every update by the user changes without a confirmation.

Main result: `self_update_keeps_iff`, when an update by the user leaves the other values alone.
-/
import Rauthy.AdminClaims
import Rauthy.Emails
import Rauthy.PasswordChanges

namespace Rauthy

open Prog

/-! ### Names that are written again -/

@[simp] theorem CacheVal.groups?_eq_some {v : CacheVal} {a : List Group} :
    v.groups? = some a ↔ v = .groups a := by
  cases v <;> simp [CacheVal.groups?]

section Names

variable {names : List String} {u : User} {w w' : World}

theorem entries_getGroups (u : User) : Entries u.getGroups := by
  unfold User.getGroups
  split
  · exact ⟨List.forall_mem_nil _, List.forall_mem_nil _⟩
  · refine ⟨fun s hs => ?_, fun s hs => ?_⟩
    · obtain ⟨t, ht, rfl⟩ := List.mem_map.mp hs
      rw [Text.split_eq, List.mem_map] at ht
      obtain ⟨a, ha, rfl⟩ := ht
      apply comma_not_mem_trim
      rw [String.toList_ofList]
      exact Csv.not_mem_of_mem_splitOn ha
    · obtain ⟨t, -, rfl⟩ := List.mem_map.mp hs
      exact trim_trim t

/-- The existing names among entries are entries: they are some of those that were read. -/
theorem Entries.existing {l : List String} (h : Entries l) (names : List String) :
    Entries (names.filter (· ∈ l)) := by
  have hmem : ∀ s ∈ names.filter (· ∈ l), s ∈ l := fun s hs =>
    of_decide_eq_true (List.mem_filter.mp hs).2
  exact ⟨fun s hs => h.1 s (hmem s hs), fun s hs => h.2 s (hmem s hs)⟩

theorem pushed_join (names wanted : List String) :
    (if pushNames names wanted = "" then pushNames names wanted
      else removeLast (pushNames names wanted)) = Text.join "," (names.filter (· ∈ wanted)) := by
  by_cases hnil : names.filter (· ∈ wanted) = []
  · rw [if_pos (pushNames_eq_empty.mpr hnil), pushNames_eq_empty.mpr hnil, hnil]
    rfl
  · rw [if_neg fun h => hnil (pushNames_eq_empty.mp h), removeLast_pushNames hnil]

/-- The roles that are served: the list in the cache, or the table. -/
def ServedRoles (w : World) (roles : List Role) : Prop :=
  w.cache .c12hr "roles_" = some (.roles roles) ∨ roles = w.db .roles

def ServedGroups (w : World) (groups : List Group) : Prop :=
  w.cache .c12hr "groups_" = some (.groups groups) ∨ groups = w.db .groups

theorem exec_cachedRows {t : Table} {k : String} {as : CacheVal → Option (List (Row t))}
    {wrap : List (Row t) → CacheVal} {rows : List (Row t)}
    (h : Exec sem (cached .c12hr k as wrap (select t fun _ => true)) w (.ok rows) w') :
    (∃ v, w.cache .c12hr k = some v ∧ as v = some rows) ∨ rows = w.db t := by
  rcases exec_cached h with ⟨v, hv, hrows, -⟩ | ⟨w₁, w₂, hw₁, hload, -⟩
  · exact .inl ⟨v, hv, hrows⟩
  · obtain ⟨hrows, -⟩ := exec_select.mp hload
    rw [List.filter_true] at hrows
    rcases hw₁ with rfl | rfl
    · exact .inr hrows
    · exact .inr hrows

/-- **Roles that are written again** are those that exist, but a single one without a name is
lost. -/
theorem Role.sanitize_getRoles {r : String}
    (h : Exec sem (Role.sanitize u.getRoles) w (.ok r) w') : ∃ roles, ServedRoles w roles ∧
    ∀ v : User, v.roles = r → v.getRoles =
      if (roles.map Role.name).filter (· ∈ u.getRoles) = [""] then []
      else (roles.map Role.name).filter (· ∈ u.getRoles) := by
  obtain ⟨roles, w₁, hall, hret, rfl⟩ := exec_bind_ok.mp h
  cases hret
  refine ⟨roles, ?_, fun v hv => ?_⟩
  · rcases exec_cachedRows (t := .roles) (k := "roles_") hall with ⟨x, hx, hroles⟩ | hrows
    · rw [CacheVal.roles?_eq_some.mp hroles] at hx
      exact .inl hx
    · exact .inr hrows
  · rw [pushed_join] at hv
    rw [← getRoles_join (u := v) ((entries_getRoles u).existing _), ← hv]

/-- **Groups that are written again** are those that exist. -/
theorem Group.sanitize_getGroups {g : Option String} (h : Exec sem
      (Group.sanitize (if u.groups.isSome then some u.getGroups else none)) w (.ok g) w') :
    ∃ groups, ServedGroups w groups ∧ ∀ v : User, v.groups = g →
      v.getGroups = (groups.map Group.name).filter (· ∈ u.getGroups) := by
  by_cases hsome : u.groups.isSome = true
  · rw [if_pos hsome] at h
    obtain ⟨groups, w₁, hall, hret, rfl⟩ := exec_bind_ok.mp h
    cases hret
    refine ⟨groups, ?_, fun v hv => ?_⟩
    · rcases exec_cachedRows (t := .groups) (k := "groups_") hall with ⟨x, hx, hgroups⟩ | hrows
      · rw [CacheVal.groups?_eq_some.mp hgroups] at hx
        exact .inl hx
      · exact .inr hrows
    · have hentries := (entries_getGroups u).existing (groups.map Group.name)
      by_cases hnil : (groups.map Group.name).filter (· ∈ u.getGroups) = []
      · rw [if_pos (pushNames_eq_empty.mpr hnil)] at hv
        rw [hnil, User.getGroups, hv]
      · rw [if_neg fun he => hnil (pushNames_eq_empty.mp he), removeLast_pushNames hnil] at hv
        have hread : v.getGroups = (Text.split ',' (Text.join ","
            ((groups.map Group.name).filter (· ∈ u.getGroups)))).map Text.trim := by
          rw [User.getGroups, hv]
        rw [hread, split_join_comma hnil hentries.1]
        conv_rhs => rw [← List.map_id ((groups.map Group.name).filter (· ∈ u.getGroups))]
        exact List.map_congr_left hentries.2
  · rw [if_neg hsome] at h
    obtain ⟨hret, -⟩ := exec_ret.mp h
    obtain rfl := Except.ok.inj hret
    refine ⟨w.db .groups, .inr rfl, fun v hv => ?_⟩
    have hnone : u.getGroups = [] := by
      rw [Bool.not_eq_true, Option.isSome_eq_false_iff, Option.isNone_iff_eq_none] at hsome
      rw [User.getGroups, hsome]
    rw [User.getGroups, hv, hnone]
    simp

end Names

/-! ### What the user has shown -/

/-- The current password, or an MFA code of this user. -/
inductive Proven (data : AppState) (w : World) (u : User) (upd : UpdateUserSelfRequest) : Prop where
  | current (plain : String) (given : upd.passwordCurrent = some plain)
      (correct : CurrentPassword data w u plain)
  | code (code : String) (d : WebauthnServiceReq) (given : upd.mfaCode = some code)
      (bound : AcceptsCode w u code d)

section Password

variable {data : AppState} {u v v' : User} {upd : UpdateUserSelfRequest} {w w' : World}
  {code : String}
  {password : Option String}

theorem AcceptsCode.of_exec (h : Exec sem (u.checkMfaCode code) w (.ok ()) w') :
    ∃ d, AcceptsCode w u code d := by
  obtain ⟨d, w₁, hfind, h⟩ := exec_bind_ok.mp h
  obtain ⟨_, w₂, hid, -⟩ := exec_bind_ok.mp h
  obtain ⟨x, w₃, hget, hfound⟩ := exec_bind_ok.mp hfind
  obtain ⟨rfl, -⟩ := exec_okOr.mp hfound
  rcases exec_cacheGet.mp hget with ⟨hnone, -⟩ | ⟨d', v, hd', hv, hdecode, -⟩
  · cases hnone
  · obtain rfl := Option.some.inj hd'
    exact ⟨d, ⟨v, hv, hdecode⟩, not_not.mp (exec_throwIf_ok.mp hid).1⟩

/-- **A new password needs a proof.** -/
theorem exec_selfPassword (h : Exec sem (u.selfPassword data upd) w (.ok password) w') :
    password = upd.passwordNew ∧ (password ≠ none → Proven data w u upd) := by
  unfold User.selfPassword at h
  split at h
  · next hnone =>
      obtain rfl := Except.ok.inj (exec_ret.mp h).1
      exact ⟨hnone.symm, fun hne => absurd rfl hne⟩
  · next new hnew =>
      split at h
      · next _ plain hcurrent =>
          obtain ⟨_, w₁, hvalid, h⟩ := exec_bind_ok.mp h
          obtain rfl := Except.ok.inj (exec_ret.mp h).1
          exact ⟨hnew.symm, fun _ => .current plain hcurrent (.of_exec hvalid)⟩
      · next code _ hcode =>
          obtain ⟨_, w₁, hcheck, h⟩ := exec_bind_ok.mp h
          obtain rfl := Except.ok.inj (exec_ret.mp h).1
          obtain ⟨d, hd⟩ := AcceptsCode.of_exec hcheck
          exact ⟨hnew.symm, fun _ => .code code d hcode hd⟩
      · cases h.1

/-- What is shown after the user has been found could have been shown before. -/
theorem Proven.of_frame (h : Proven data w' u upd) (hf : Frame [] [(.users, .user)] w w')
    (hs : w'.cache .webauthnData = w.cache .webauthnData) : Proven data w u upd := by
  cases h with
  | current plain given correct =>
      obtain ⟨hash, hhash, hok, hexp⟩ := correct
      refine .current plain given ⟨hash, hhash, hok, fun exp he => ?_⟩
      exact le_trans (Int.ediv_le_ediv (by decide) hf.clock) (hexp exp he)
  | code code d given bound =>
      obtain ⟨⟨x, hx, hdecode⟩, hid⟩ := bound
      exact .code code d given ⟨⟨x, hs ▸ hx, hdecode⟩, hid⟩

/-- A new password changes the password and its expiration. -/
theorem exec_updatePassword (h : Exec sem (User.updatePassword data v password) w (.ok v') w') :
    (∃ hash exp, v' = { v with password := hash, passwordExpires := exp }) ∧
      (password = none → v'.password = v.password) := by
  unfold User.updatePassword at h
  split at h
  · obtain ⟨_, _, -, h⟩ := exec_bind_ok.mp h
    obtain ⟨_, _, -, h⟩ := exec_bind_ok.mp h
    obtain ⟨_, _, -, h⟩ := exec_bind_ok.mp h
    obtain ⟨_, _, -, h⟩ := exec_bind_ok.mp h
    obtain ⟨_, _, -, h⟩ := exec_bind_ok.mp h
    obtain rfl := Except.ok.inj (exec_ret.mp h).1
    exact ⟨⟨_, _, rfl⟩, fun hnone => by cases hnone⟩
  · obtain rfl := Except.ok.inj (exec_ret.mp h).1
    exact ⟨⟨_, _, rfl⟩, fun _ => rfl⟩

end Password

/-! ### The update -/

/-- The user `u'` that an update by the user makes of `u`. -/
structure Carried (data : AppState) (password : Option String) (roles : List Role)
    (groups : List Group) (u u' : User) : Prop where
  id : u'.id = u.id
  email : u'.email = data.toLowercase u.email
  enabled : u'.enabled = u.enabled
  emailVerified : u'.emailVerified = u.emailVerified
  userExpires : u'.userExpires = u.userExpires
  authProviderId : u'.authProviderId = u.authProviderId
  federationUid : u'.federationUid = u.federationUid
  webauthnUserId : u'.webauthnUserId = u.webauthnUserId
  getRoles : u'.getRoles = if (roles.map Role.name).filter (· ∈ u.getRoles) = [""] then []
    else (roles.map Role.name).filter (· ∈ u.getRoles)
  getGroups : u'.getGroups = (groups.map Group.name).filter (· ∈ u.getGroups)
  password : password = none → u'.password = u.password

/-- What an update by the user leaves alone.  Roles and groups that do not exist are dropped, and a
new password needs a proof. -/
structure KeepsRights (data : AppState) (w w' : World) (upd : UpdateUserSelfRequest)
    (roles : List Role) (groups : List Group) (u u' : User) : Prop where
  id : u'.id = u.id
  fewerRoles : ∀ r ∈ u'.getRoles, r ∈ u.getRoles
  allRoles : (∀ r ∈ u.getRoles, r ∈ roles.map Role.name) → ∀ r ∈ u.getRoles, r ∈ u'.getRoles
  fewerGroups : ∀ g ∈ u'.getGroups, g ∈ u.getGroups
  allGroups : (∀ g ∈ u.getGroups, g ∈ groups.map Group.name) → ∀ g ∈ u.getGroups, g ∈ u'.getGroups
  email : u'.email = u.email
  enabled : u'.enabled = u.enabled
  emailVerified : u'.emailVerified = u.emailVerified
  userExpires : u'.userExpires = u.userExpires
  authProviderId : u'.authProviderId = u.authProviderId
  federationUid : u'.federationUid = u.federationUid
  webauthnUserId : u'.webauthnUserId = u.webauthnUserId
  passkeys : w'.db .passkeys = w.db .passkeys
  password : u'.password ≠ u.password → upd.passwordNew ≠ none ∧ Proven data w u upd
  stored : ∀ r ∈ w'.db .users, r.id = u.id → { r with createdAt := u'.createdAt } = u'

/-- The e-mail has been lowered before, and the user does not only have an existing role without a
name. -/
structure CarriesOver (data : AppState) (roles : List Role) (u : User) : Prop where
  email : data.toLowercase u.email = u.email
  named : (∀ r ∈ u.getRoles, r ∈ roles.map Role.name) →
    (roles.map Role.name).filter (· ∈ u.getRoles) ≠ [""]

section Update

variable {data : AppState} {u u' : User} {upd : UpdateUserSelfRequest} {password : Option String}
  {roles : List Role} {groups : List Group} {w w' : World} {ts : List Table}
  {cs : List (CacheName × Slot)}

theorem ServedRoles.of_frame (h : ServedRoles w' roles) (hf : Frame ts cs w w')
    (ht : .roles ∉ ts) (hc : (.c12hr, .roles) ∉ cs) : ServedRoles w roles := by
  rcases h with h | h
  · exact .inl ((hf.cache _ _ _ h).resolve_right hc)
  · exact .inr (h.trans (hf.db .roles ht))

theorem ServedGroups.of_frame (h : ServedGroups w' groups) (hf : Frame ts cs w w')
    (ht : .groups ∉ ts) (hc : (.c12hr, .groups) ∉ cs) : ServedGroups w groups := by
  rcases h with h | h
  · exact .inl ((hf.cache _ _ _ h).resolve_right hc)
  · exact .inr (h.trans (hf.db .groups ht))

/-- **What the request carries over.** -/
theorem exec_carried
    (h : Exec sem (User.updateFields data u (u.selfUpdate upd password)) w (.ok u') w') :
    ∃ roles groups, ServedRoles w roles ∧ ServedGroups w groups ∧
      Carried data password roles groups u u' := by
  obtain ⟨v, w₁, hpassword, h⟩ := exec_bind_ok.mp h
  obtain ⟨r, w₂, hroles, h⟩ := exec_bind_ok.mp h
  obtain ⟨g, w₃, hgroups, hret, -⟩ := exec_bind_ok.mp h
  cases hret
  obtain ⟨roles, hserved, hread⟩ := Role.sanitize_getRoles hroles
  obtain ⟨groups, hservedGroups, hreadGroups⟩ := Group.sanitize_getGroups hgroups
  have hframe₁ : Frame [.recentPasswords] [(.c12hr, .policy)] w w₁ := by
    have htouches : Touches [.recentPasswords] [(.c12hr, .policy)]
        (User.updatePassword data { u with
          email := data.toLowercase u.email, givenName := upd.givenName.getD u.givenName,
          familyName := upd.familyName.getD u.familyName,
          language := upd.language.getD u.language } password) := by
      cases password with
      | none => exact touches_ret _
      | some plain => exact User.applyPasswordRules_touches plain
    exact htouches.frame hpassword
  have hframe₂ := (Role.sanitize_touches _).frame hroles
  obtain ⟨⟨hash, exp, rfl⟩, hnone⟩ := exec_updatePassword hpassword
  refine ⟨roles, groups, hserved.of_frame hframe₁ (by simp) (by simp),
    (hservedGroups.of_frame hframe₂ (by simp) (by simp)).of_frame hframe₁ (by simp) (by simp), ?_⟩
  exact ⟨rfl, rfl, rfl, rfl, rfl, rfl, rfl, rfl, hread _ rfl, hreadGroups _ rfl, hnone⟩

theorem User.updateValues_touches (id : String) (values : Option UserValuesRequest) :
    Touches [.usersValues] [(.users, .userValues)] (User.updateValues id values) := by
  cases values with
  | none => exact touches_ret _
  | some values => exact UserValues.upsert_touches _ _

theorem exec_save_rows {old : Option String} (h : Exec sem (u.save data old) w (.ok ()) w') :
    ∀ r ∈ w'.db .users, r.id = u.id → { r with createdAt := u.createdAt } = u := by
  obtain ⟨_, w₁, -, h⟩ := exec_bind_ok.mp h
  obtain ⟨_, w₂, hexec, hcached⟩ := exec_bind_ok.mp h
  obtain ⟨db, hdb, rfl⟩ := exec_execute.mp hexec
  intro r hr hid
  rw [((u.saveCached_touches old).frame hcached).db .users (by simp)] at hr
  replace hr : r ∈ u.replaced (w₁.db .users) := saveStmt_users hdb.applied ▸ hr
  obtain ⟨r₀, -, rfl⟩ := List.mem_map.mp hr
  by_cases hu : r₀.id = u.id
  · simp [hu]
  · simp [hu] at hid

/-- **The carried values** keep the rights of the user iff the e-mail and the names come back. -/
theorem Carried.keepsRights_iff (h : Carried data password roles groups u u')
    (hproven : password ≠ none → upd.passwordNew ≠ none ∧ Proven data w u upd)
    (hpasskeys : w'.db .passkeys = w.db .passkeys)
    (hstored : ∀ r ∈ w'.db .users, r.id = u.id → { r with createdAt := u'.createdAt } = u') :
    KeepsRights data w w' upd roles groups u u' ↔ CarriesOver data roles u := by
  have hexisting : ∀ r, r ∈ (roles.map Role.name).filter (· ∈ u.getRoles) ↔
      r ∈ roles.map Role.name ∧ r ∈ u.getRoles := by
    intro r
    rw [List.mem_filter, decide_eq_true_eq]
  constructor
  · intro hk
    refine ⟨h.email.symm.trans hk.email, fun hall hone => ?_⟩
    -- the only role is lost
    have hnone : u'.getRoles = [] := by rw [h.getRoles, if_pos hone]
    have hmem : "" ∈ u.getRoles := ((hexisting "").mp (hone ▸ List.mem_singleton_self _)).2
    have hlost := hk.allRoles hall "" hmem
    rw [hnone] at hlost
    cases hlost
  · intro hc
    refine ⟨h.id, fun r hr => ?_, fun hall r hr => ?_, fun g hg => ?_, fun hall g hg => ?_,
      h.email.trans hc.email, h.enabled, h.emailVerified, h.userExpires, h.authProviderId,
      h.federationUid, h.webauthnUserId, hpasskeys, fun hne => hproven fun hp => ?_, hstored⟩
    · rw [h.getRoles] at hr
      split at hr
      · cases hr
      · exact ((hexisting r).mp hr).2
    · rw [h.getRoles, if_neg (hc.named hall)]
      exact (hexisting r).mpr ⟨hall r hr, hr⟩
    · rw [h.getGroups] at hg
      exact of_decide_eq_true (List.mem_filter.mp hg).2
    · rw [h.getGroups]
      exact List.mem_filter.mpr ⟨hall g hg, decide_eq_true hg⟩
    · exact hne (h.password hp)

/-- **Updates by the user**: one that returns Ok leaves the rights of the user that was found alone,
and changes the password only after a proof, iff the e-mail is in lower case. -/
theorem self_update_keeps_iff {id : String} {values : Option UserValues} {mailed : Bool}
    (h : Exec sem (User.updateSelfReq data id upd) w (.ok (u', values, mailed)) w') :
    ∃ u roles groups, ServedUser w id u ∧ ServedRoles w roles ∧ ServedGroups w groups ∧
      (KeepsRights data w w' upd roles groups u u' ↔ CarriesOver data roles u) := by
  have hpasskeys : w'.db .passkeys = w.db .passkeys :=
    ((User.updateSelfReq_touches id upd).frame h).db .passkeys (by simp [updateTables])
  obtain ⟨u, w₁, hfind, h⟩ := exec_bind_ok.mp h
  obtain ⟨password, w₂, hpassword, h⟩ := exec_bind_ok.mp h
  obtain ⟨sent, w₃, hemail, h⟩ := exec_bind_ok.mp h
  obtain ⟨⟨v, values', admin⟩, w₄, hupdate, hret, rfl⟩ := exec_bind_ok.mp h
  cases hret
  have hframe₁ := (User.find_touches id).frame hfind
  have hframe₂ := (u.selfPassword_touches upd).frame hpassword
  have hframe₃ := (u.selfEmail_touches upd.email).frame hemail
  obtain ⟨hnew, hproven⟩ := exec_selfPassword hpassword
  obtain ⟨old, w₅, hold, hupdate⟩ := exec_bind_ok.mp hupdate
  obtain ⟨v, w₆, hfields, hupdate⟩ := exec_bind_ok.mp hupdate
  obtain ⟨_, w₇, hsave, hupdate⟩ := exec_bind_ok.mp hupdate
  obtain ⟨_, w₈, hsessions, hupdate⟩ := exec_bind_ok.mp hupdate
  obtain ⟨values'', w₉, hvalues, hret, rfl⟩ := exec_bind_ok.mp hupdate
  cases hret
  obtain ⟨hsame, rfl⟩ := exec_ret.mp hold
  obtain rfl := Except.ok.inj hsame
  obtain ⟨roles, groups, hroles, hgroups, hcarried⟩ := exec_carried hfields
  refine ⟨_, roles, groups, .of_exec hfind, ?_, ?_, hcarried.keepsRights_iff (fun hne => ?_)
    hpasskeys ?_⟩
  · exact ((hroles.of_frame hframe₃ (by simp) (by simp)).of_frame hframe₂ (by simp)
      (by simp)).of_frame hframe₁ (by simp) (by simp)
  · exact ((hgroups.of_frame hframe₃ (by simp) (by simp)).of_frame hframe₂ (by simp)
      (by simp)).of_frame hframe₁ (by simp) (by simp)
  · refine ⟨hnew ▸ hne, (hproven hne).of_frame hframe₁ ?_⟩
    exact (User.find_spares (by decide) id).cache hfind
  · -- after the save no row of a user is written
    have hended := (touches_runIf (Session.invalidateForUser_touches u'.id)).frame hsessions
    have hwritten := (User.updateValues_touches u'.id upd.userValues).frame hvalues
    rw [hwritten.db .users (by simp), hended.db .users (by simp), ← hcarried.id]
    exact exec_save_rows hsave

end Update

/-- A user and her role. -/
def selfWorld (u : User) : World where
  clock := 0
  issued := []
  db
    | .users => [u]
    | .roles => [⟨"role", "admin"⟩]
    | _ => []
  cache _ _ := none

/-- An update of the given name. -/
def nameUpdate : UpdateUserSelfRequest :=
  { (default : UpdateUserSelfRequest) with givenName := some "Alicia" }

/-- alice keeps her rights. -/
theorem self_update_keeps_iff_name : ∃ u' values mailed w',
    Exec sem (User.updateSelfReq sampleState "alice" nameUpdate) (selfWorld sampleUser)
      (.ok (u', values, mailed)) w' ∧
    KeepsRights sampleState (selfWorld sampleUser) w' nameUpdate [⟨"role", "admin"⟩] [] sampleUser
      u' := by
  obtain ⟨r, w', hx, hr⟩ := Pool.exists_exec_of_choices Op.run
    (User.updateSelfReq sampleState "alice" nameUpdate)
    [.miss, .ok, .ok, .miss, .ok, .ok, .ok, .ok, .ok] (selfWorld sampleUser)
    (fun r _ => r.isOk) (by decide +kernel)
  rcases r with e | ⟨u', values, mailed⟩
  · cases hr
  obtain ⟨u, roles, groups, hu, hroles, hgroups, hiff⟩ := self_update_keeps_iff hx
  refine ⟨u', values, mailed, w', hx, ?_⟩
  -- nothing is cached
  obtain rfl : u = sampleUser := by
    rcases hu with hu | hu
    · cases hu
    · exact (Option.some.inj hu).symm
  obtain rfl : roles = [⟨"role", "admin"⟩] := by
    rcases hroles with h | h
    · cases h
    · exact h
  obtain rfl : groups = [] := by
    rcases hgroups with h | h
    · cases h
    · exact h
  exact hiff.mpr ⟨by decide, fun _ => by decide⟩

/-- The user as a login with a provider has created her. -/
def capitalUser : User := { sampleUser with email := "Alice@localhost" }

/-- An update of the given name changes the e-mail. -/
theorem self_update_lowers_email :
    ¬ ∀ (data : AppState) (id : String) (upd : UpdateUserSelfRequest) (w w' : World) (u' : User)
      (values : Option UserValues) (mailed : Bool),
      Exec sem (User.updateSelfReq data id upd) w (.ok (u', values, mailed)) w' →
      ∃ u roles groups, ServedUser w id u ∧ ServedRoles w roles ∧ ServedGroups w groups ∧
        KeepsRights data w w' upd roles groups u u' := by
  intro hall
  obtain ⟨r, w', hx, hr⟩ := Pool.exists_exec_of_choices Op.run
    (User.updateSelfReq lowerState "alice" nameUpdate)
    [.miss, .ok, .ok, .miss, .ok, .ok, .miss, .ok, .ok, .ok, .ok, .ok, .time 0, .ok]
    (selfWorld capitalUser)
    (fun r _ => r.toOption.any fun x => x.1.email == "alice@localhost") (by decide +kernel)
  rcases r with e | ⟨u', values, mailed⟩
  · cases hr
  obtain ⟨u, roles, groups, hu, -, -, hk⟩ := hall lowerState "alice" nameUpdate _ w' u' values
    mailed hx
  obtain rfl : u = capitalUser := by
    rcases hu with hu | hu
    · cases hu
    · exact (Option.some.inj hu).symm
  have hemail := hk.email
  rw [beq_iff_eq.mp hr] at hemail
  exact absurd hemail (by decide)

end Rauthy
