/-
Rauthy/AdminClaims.lean

The role `rauthy_admin` of a federated user, which an upstream provider may decide on: the
configured claim grants and revokes it, and it is left alone without one.

The roles of a user are one text.  Revoking takes the role out of the entries of this text
and joins the others again; granting puts it in front of them.  An empty entry names no role,
and a text of nothing but one empty entry is the text of no roles at all.

Main result: `admin_of_claim`, the roles of the user after a login, as they are returned and
as they are stored.
-/
import Rauthy.Columns
import Rauthy.Federation

namespace Rauthy

open Prog AuthProviderIdClaims

/-! ### Reading the entries of a text again -/

section Entries

variable {u : User} {l : List String} {b : Bool}

/-- The entries of a text can be read again: they have no comma and no blanks around them. -/
def Entries (l : List String) : Prop := NoComma l ∧ ∀ s ∈ l, Text.trim s = s

theorem trim_trim (s : String) : Text.trim (Text.trim s) = Text.trim s := by
  rw [← String.toList_inj, Text.toList_trim, Text.toList_trim]
  exact Csv.trim_trim Text.isWhitespace s.toList

theorem comma_not_mem_trim {s : String} (h : ',' ∉ s.toList) : ',' ∉ (Text.trim s).toList := by
  intro hmem
  rw [Text.toList_trim] at hmem
  obtain ⟨l, r, -, -, hs⟩ := Csv.exists_trim Text.isWhitespace s.toList
  apply h
  rw [hs, List.mem_append, List.mem_append]
  exact .inl (.inr hmem)

theorem entries_getRoles (u : User) : Entries u.getRoles := by
  unfold User.getRoles
  split
  · exact ⟨List.forall_mem_nil _, List.forall_mem_nil _⟩
  · refine ⟨fun s hs => ?_, fun s hs => ?_⟩
    · obtain ⟨t, ht, rfl⟩ := List.mem_map.mp hs
      rw [Text.split_eq, List.mem_map] at ht
      obtain ⟨a, ha, rfl⟩ := ht
      apply comma_not_mem_trim
      rw [String.toList_ofList]
      exact Csv.not_mem_of_mem_splitOn ha
    · obtain ⟨t, -, rfl⟩ := List.mem_map.mp hs
      exact trim_trim t

theorem Entries.filter (h : Entries l) (p : String → Bool) : Entries (l.filter p) :=
  ⟨fun s hs => h.1 s (List.mem_of_mem_filter hs), fun s hs => h.2 s (List.mem_of_mem_filter hs)⟩

theorem Entries.cons {s : String} (h : Entries l) (hc : ',' ∉ s.toList) (ht : Text.trim s = s) :
    Entries (s :: l) :=
  ⟨List.forall_mem_cons.mpr ⟨hc, h.1⟩, List.forall_mem_cons.mpr ⟨ht, h.2⟩⟩

theorem join_eq_empty : Text.join "," l = "" ↔ l = [] ∨ l = [""] := by
  rcases l with - | ⟨s, - | ⟨t, r⟩⟩
  · exact ⟨fun _ => .inl rfl, fun _ => rfl⟩
  · show s = "" ↔ _
    simp
  · refine iff_of_false (fun h => ?_) (by simp)
    rw [← String.toList_inj, Text.join, String.toList_append, String.toList_append] at h
    simp at h

/-- **Reading joined entries**: only the one of a single empty entry is lost. -/
theorem getRoles_join (h : Entries l) :
    ({ u with roles := Text.join "," l } : User).getRoles = if l = [""] then [] else l := by
  unfold User.getRoles
  by_cases he : l = [] ∨ l = [""]
  · rw [if_pos (join_eq_empty.mpr he)]
    rcases he with rfl | rfl <;> rfl
  · rw [if_neg (fun hj => he (join_eq_empty.mp hj)), if_neg (fun hl => he (.inr hl))]
    show (Text.split ',' (Text.join "," l)).map Text.trim = l
    rw [split_join_comma (fun hl => he (.inl hl)) h.1]
    conv_rhs => rw [← List.map_id l]
    exact List.map_congr_left h.2

end Entries

/-! ### The roles after the claim has been applied -/

section Roles

variable {u : User}

/-- The roles of a user apart from the administrator's: the entries that name one. -/
def otherRoles (u : User) : List String := u.getRoles.filter fun r => r ≠ roleAdmin ∧ r ≠ ""

theorem otherRoles_eq (u : User) :
    otherRoles u = (u.getRoles.filter (· ≠ roleAdmin)).filter (· ≠ "") := by
  rw [List.filter_filter]
  apply List.filter_congr
  intro r _
  simp [Bool.and_comm]

theorem getRoles_mapRoles_true :
    ({ u with roles := mapRoles u (some true) } : User).getRoles =
      if roleAdmin ∈ u.getRoles then u.getRoles else roleAdmin :: u.getRoles := by
  unfold mapRoles
  simp only
  by_cases h : roleAdmin ∈ u.getRoles
  · rw [if_pos h, if_pos h]
  · rw [if_neg h, if_neg h]
    rw [getRoles_join ((entries_getRoles u).cons (by decide) (by decide))]
    rw [if_neg]
    intro he
    have hhead := (List.cons.inj he).1
    exact absurd hhead (by decide)

theorem getRoles_mapRoles_false :
    ({ u with roles := mapRoles u (some false) } : User).getRoles =
      if roleAdmin ∈ u.getRoles ∧ u.getRoles.filter (· ≠ roleAdmin) = [""] then []
      else u.getRoles.filter (· ≠ roleAdmin) := by
  unfold mapRoles
  simp only
  by_cases h : roleAdmin ∈ u.getRoles
  · rw [if_pos h]
    by_cases hone : u.getRoles.length = 1
    · -- the only entry is the administrator's role
      obtain ⟨r, hr⟩ := List.length_eq_one_iff.mp hone
      have hadmin : r = roleAdmin := by
        rw [hr, List.mem_singleton] at h
        exact h.symm
      rw [if_pos hone, hr, hadmin]
      rfl
    · rw [if_neg hone, getRoles_join ((entries_getRoles u).filter _)]
      simp only [h, true_and]
  · have hall : u.getRoles.filter (· ≠ roleAdmin) = u.getRoles := by
      rw [List.filter_eq_self]
      intro r hr
      have hne : r ≠ roleAdmin := fun he => h (he ▸ hr)
      simpa using hne
    rw [if_neg h, hall, if_neg (fun hc => h hc.1)]

theorem mem_mapRoles {b : Bool} :
    roleAdmin ∈ ({ u with roles := mapRoles u (some b) } : User).getRoles ↔ b = true := by
  cases b with
  | true =>
      rw [getRoles_mapRoles_true]
      split
      · next h => exact ⟨fun _ => rfl, fun _ => h⟩
      · exact ⟨fun _ => rfl, fun _ => List.mem_cons_self⟩
  | false =>
      rw [getRoles_mapRoles_false]
      split
      · simp
      · simp

/-- **The administrator's role is what the claim says.** -/
theorem isAdmin_mapRoles {b : Bool} :
    ({ u with roles := mapRoles u (some b) } : User).isAdmin = b := by
  unfold User.isAdmin
  apply Bool.eq_iff_iff.mpr
  exact decide_eq_true_iff.trans mem_mapRoles

/-- **The other entries are kept, in order**, unless they are a single empty one. -/
theorem filter_mapRoles (b : Option Bool) (h : u.getRoles.filter (· ≠ roleAdmin) ≠ [""]) :
    ({ u with roles := mapRoles u b } : User).getRoles.filter (· ≠ roleAdmin) =
      u.getRoles.filter (· ≠ roleAdmin) := by
  rcases b with - | - | -
  · rfl
  · rw [getRoles_mapRoles_false, if_neg (fun hc => h hc.2), List.filter_filter]
    simp
  · rw [getRoles_mapRoles_true]
    split
    · rfl
    · simp

theorem otherRoles_mapRoles (b : Option Bool) :
    otherRoles { u with roles := mapRoles u b } = otherRoles u := by
  rw [otherRoles_eq, otherRoles_eq]
  by_cases h : u.getRoles.filter (· ≠ roleAdmin) = [""]
  · rcases b with - | - | -
    · rfl
    · rw [getRoles_mapRoles_false, h]
      split <;> rfl
    · rw [getRoles_mapRoles_true]
      split
      · rfl
      · simp
  · rw [filter_mapRoles b h]

end Roles

/-! ### The login -/

section Login

variable {data : AppState} {c : AuthProviderIdClaims} {provider : AuthProvider}
  {link : Option AuthProviderLinkCookie} {email uid : String} {admin : Option Bool} {now : Int}
  {u user : User} {w w' : World}
  {found : Option User}

/-- The roles of a user are stored: every row with its id has them. -/
def RolesStored (w : World) (user : User) : Prop :=
  ∀ r ∈ w.db .users, r.id = user.id → r.roles = user.roles

theorem RolesStored.of_touches {α : Type} {p : M ErrorResponse α} {ts : List Table}
    {cs : List (CacheName × Slot)} {r : Except (Fault ErrorResponse) α} (h : RolesStored w user)
    (hp : Touches ts cs p) (hts : Table.users ∉ ts) (hx : Exec sem p w r w') :
    RolesStored w' user := by
  intro r hr
  rw [(hp.frame hx).db .users hts] at hr
  exact h r hr

theorem rolesStored_save {old : Option String} (h : Exec sem (u.save data old) w (.ok ()) w') :
    RolesStored w' u := by
  obtain ⟨_, w₁, -, h⟩ := exec_bind_ok.mp h
  obtain ⟨_, w₂, hexec, hcached⟩ := exec_bind_ok.mp h
  obtain ⟨db, hdb, rfl⟩ := exec_execute.mp hexec
  refine RolesStored.of_touches (fun r hr hid => ?_) (u.saveCached_touches old) (by simp) hcached
  -- every row with this id has been overwritten
  replace hr : r ∈ u.replaced (w₁.db .users) := saveStmt_users hdb.applied ▸ hr
  obtain ⟨r₀, -, rfl⟩ := List.mem_map.mp hr
  by_cases hu : r₀.id = u.id
  · simp [hu]
  · simp [hu] at hid

theorem rolesStored_insert (h : Exec sem (User.createFederated u) w (.ok user) w') :
    user = u ∧ RolesStored w' user := by
  obtain ⟨_, w₁, hexec, h⟩ := exec_bind_ok.mp h
  obtain ⟨_, w₂, hcount, hret⟩ := exec_bind_ok.mp h
  obtain ⟨hu, rfl⟩ := hret
  cases hu
  obtain ⟨db, hdb, rfl⟩ := exec_execute.mp hexec
  have htouches : Touches [] [(.c12hr, .count)] User.countInc :=
    touches_bind User.count_touches fun _ => touches_cachePut (by simp [CacheVal.slot]) _
  refine ⟨rfl, RolesStored.of_touches (fun r hr hid => ?_) htouches (by simp) hcount⟩
  have happlied := hdb.applied
  simp only [applyAll, DbWrite.apply] at happlied
  split at happlied
  · cases happlied
  next hfree =>
  cases happlied
  -- a row with this id would have refused the new one
  simp only [Function.update_self, List.mem_append, List.mem_singleton] at hr
  rcases hr with hr | rfl
  · refine absurd (List.any_eq_true.mpr ⟨r, hr, ?_⟩) hfree
    simp [conflicts, sameKey, hid]
  · rfl

theorem roles_updateUser
    (h : Exec sem (c.updateUser data provider email uid admin now u) w (.ok user) w') :
    user.roles = mapRoles u admin ∧ RolesStored w' user := by
  unfold updateUser at h
  split at h
  · obtain ⟨_, _, -, hfail⟩ := exec_bind_ok.mp h
    exact absurd hfail.1 (by simp)
  · obtain ⟨_, _, hsave, hret⟩ := exec_bind_ok.mp h
    obtain ⟨hu, rfl⟩ := hret
    cases hu
    exact ⟨rfl, rolesStored_save hsave⟩

theorem roles_createUser
    (h : Exec sem (c.createUser provider email uid admin now) w (.ok user) w') :
    user.roles = (if admin = some true then roleAdmin else "") ∧ RolesStored w' user := by
  obtain ⟨_, _, -, h⟩ := exec_bind_ok.mp h
  obtain ⟨_, _, -, hcreate⟩ := exec_bind_ok.mp h
  obtain ⟨rfl, hstored⟩ := rolesStored_insert hcreate
  exact ⟨rfl, hstored⟩

theorem isAdmin_created (b : Bool)
    (h : user.roles = if some b = some true then roleAdmin else "") : user.isAdmin = b := by
  unfold User.isAdmin User.getRoles
  rw [h]
  cases b with
  | true => decide
  | false => rfl

theorem getRoles_congr {v : User} (h : user.roles = v.roles) : user.getRoles = v.getRoles := by
  unfold User.getRoles
  rw [h]

/-- What the login makes of the roles of the user that was found; `none` is a new user. -/
structure AdminMapped (data : AppState) (c : AuthProviderIdClaims) (provider : AuthProvider)
    (found : Option User) (user : User) : Prop where
  /-- the administrator's role is decided by the claim -/
  admin : ∀ path value vs, provider.adminClaimPath = some path →
    provider.adminClaimValue = some value → data.jsonPath path c.jsonBytes = some vs →
    (user.isAdmin = true ↔ ∃ v ∈ vs, claimText v = data.jsonText value)
  /-- the other roles are kept in order -/
  others : ∀ u, found = some u → otherRoles user = otherRoles u
  /-- so are all entries but a single empty one -/
  entries : ∀ u, found = some u → u.getRoles.filter (· ≠ roleAdmin) ≠ [""] →
    user.getRoles.filter (· ≠ roleAdmin) = u.getRoles.filter (· ≠ roleAdmin)
  /-- without a mapping, the roles stay as they are -/
  unmapped : provider.adminClaimPath = none → ∀ u, found = some u → user.roles = u.roles

theorem hasClaim_configured {path value : String} {vs : List JsonValue} {what : String}
    (hvs : data.jsonPath path c.jsonBytes = some vs) :
    c.hasClaim data what (some path) (some value) =
      .ok (some (vs.any fun v => claimText v == data.jsonText value)) := by
  unfold hasClaim
  simp only
  rw [hvs, Option.map_some]

/-- The roles after the login of a user that was found, or of a new one. -/
def rolesAfter (admin : Option Bool) : Option User → String
  | some u => mapRoles u admin
  | none => if admin = some true then roleAdmin else ""

theorem roles_loginUser
    (h : Exec sem (c.loginUser data provider email uid admin now found) w (.ok user) w') :
    user.roles = rolesAfter admin found ∧ RolesStored w' user := by
  rcases found with - | u
  · exact roles_createUser h
  · exact roles_updateUser h

theorem isAdmin_rolesAfter {b : Bool} (h : user.roles = rolesAfter (some b) found) :
    user.isAdmin = b := by
  rcases found with - | u
  · exact isAdmin_created b h
  · have hget := getRoles_congr (v := { u with roles := mapRoles u (some b) }) h
    show decide (roleAdmin ∈ user.getRoles) = b
    rw [hget]
    exact isAdmin_mapRoles

theorem adminMapped
    (hadmin : c.hasClaim data "admin" provider.adminClaimPath provider.adminClaimValue = .ok admin)
    (hroles : user.roles = rolesAfter admin found) : AdminMapped data c provider found user := by
  have hget : ∀ u, found = some u →
      user.getRoles = ({ u with roles := mapRoles u admin } : User).getRoles := by
    rintro u rfl
    exact getRoles_congr hroles
  refine ⟨fun path value vs hpath hvalue hvs => ?_, fun u hu => ?_, fun u hu hone => ?_,
    fun hpath u hu => ?_⟩
  · rw [hpath, hvalue, hasClaim_configured hvs] at hadmin
    cases hadmin
    rw [isAdmin_rolesAfter hroles, List.any_eq_true]
    simp only [beq_iff_eq]
  · rw [← otherRoles_mapRoles (u := u) admin, otherRoles, hget u hu]
    rfl
  · rw [← filter_mapRoles (u := u) admin hone, hget u hu]
  · rw [hpath] at hadmin
    cases hadmin
    rw [hroles, hu]
    rfl

/-- **The roles after an upstream login**: the user that is returned, and every row stored with
its id, have the administrator's role exactly if the configured claim has the configured value;
the other roles are those of the user that was found. -/
theorem admin_of_claim {mfa : ProviderMfaLogin}
    (h : Exec sem (c.validateUpdateUser data provider link) w (.ok (user, mfa)) w') :
    ∃ email uid found w₁, c.email = some email ∧ c.userIdOf = some uid ∧
      Exec sem (findUser data provider link email uid) w (.ok found) w₁ ∧
      AdminMapped data c provider found user ∧ RolesStored w' user := by
  obtain ⟨email, _, hx₁, h₁⟩ := exec_bind_ok.mp h
  obtain ⟨hemail, rfl⟩ := exec_okOr.mp hx₁
  obtain ⟨uid, _, hx₂, h₂⟩ := exec_bind_ok.mp h₁
  obtain ⟨huid, rfl⟩ := exec_okOr.mp hx₂
  obtain ⟨found, _, hfind, h₃⟩ := exec_bind_ok.mp h₂
  obtain ⟨admin, _, hx₃, h₄⟩ := exec_bind_ok.mp h₃
  obtain ⟨hadmin, rfl⟩ := exec_answer.mp hx₃
  obtain ⟨_, _, -, h₅⟩ := exec_bind_ok.mp h₄
  obtain ⟨now, _, -, h₆⟩ := exec_bind_ok.mp h₅
  obtain ⟨user', _, hlogin, h₇⟩ := exec_bind_ok.mp h₆
  obtain ⟨_, _, hvalues, hret, hw⟩ := exec_bind_ok.mp h₇
  cases hret
  rw [hw]
  obtain ⟨hroles, hstored⟩ := roles_loginUser hlogin
  exact ⟨email, uid, found, _, hemail, huid, hfind, adminMapped hadmin hroles,
    hstored.of_touches (saveValues_touches _) (by simp) hvalues⟩

end Login

/-! ### Alice loses the role -/

/-- A provider whose groups decide on the role, with the groups of a claims document. -/
def groupsState : AppState :=
  { sampleState with
    jsonText := fun s => "\"" ++ s ++ "\""
    jsonPath := fun _ _ => some [⟨true, "\"staff\""⟩, ⟨false, "7"⟩] }

def groupsProvider : AuthProvider :=
  { sampleProvider with adminClaimPath := some "$.groups[*]", adminClaimValue := some "admins" }

/-- alice, with two roles next to the administrator's. -/
def groupsAlice : User :=
  { sampleUser with
    roles := "editor, rauthy_admin,ops"
    authProviderId := some "provider"
    federationUid := some "uid" }

theorem admin_of_claim_alice : ∃ user mfa w' email uid found w₁,
    Exec sem (sampleClaims.validateUpdateUser groupsState groupsProvider none)
      (federationWorld [groupsAlice] []) (.ok (user, mfa)) w' ∧
    user.roles = "editor,ops" ∧ sampleClaims.email = some email ∧
    sampleClaims.userIdOf = some uid ∧
    Exec sem (findUser groupsState groupsProvider none email uid)
      (federationWorld [groupsAlice] []) (.ok found) w₁ ∧
    AdminMapped groupsState sampleClaims groupsProvider found user ∧ RolesStored w' user := by
  obtain ⟨r, w', hx, hr⟩ := Pool.exists_exec_of_choices Op.run
    (sampleClaims.validateUpdateUser groupsState groupsProvider none)
    [.ok, .time 0, .ok, .ok, .ok, .ok, .ok, .ok] (federationWorld [groupsAlice] [])
    (fun r _ => r.toOption.any fun x => x.1.roles == "editor,ops") (by decide +kernel)
  rcases r with e | ⟨user, mfa⟩
  · cases hr
  obtain ⟨email, uid, found, w₁, hemail, huid, hfind, hmapped, hstored⟩ := admin_of_claim hx
  exact ⟨user, mfa, w', email, uid, found, w₁, hx, beq_iff_eq.mp hr, hemail, huid, hfind, hmapped,
    hstored⟩

end Rauthy
