/-
Rauthy/Migration.lean

The migration of one database into another one (`migrate_from_sqlite` and `migrate_from_postgres`,
`rauthy-models/src/migration/db_migrate.rs`), with the constraints of the tables as the files under
`migrations/` leave them.  Both functions copy the same tables in the same order, and differ in the
statements for two of them only.

Main result: `migration_exact`.  The target ends as `migrated src`, whatever it has held, or the
migration fails, and it says when.  The devices and their refresh tokens are gone; the sessions have
lost their IP, the refresh tokens that they are from a login with MFA, and the dynamic clients when
they were used last.
-/
import Rauthy.Lib.Relational
import Rauthy.Sessions

namespace Rauthy

open Relational (ForeignKey Schema Tables Copying Writing ParentsFirst)

inductive DbType where
  | sqlite
  | postgres
  deriving DecidableEq

/-! ### The schema -/

inductive SqlTable where
  | config
  | apiKeys
  | authProviders
  | authProviderLogos
  | users
  | passkeys
  | clients
  | clientsDyn
  | clientLogos
  | colors
  | groups
  | jwks
  | magicLinks
  | refreshTokens
  | roles
  | scopes
  | events
  | userAttrConfig
  | userAttrValues
  | usersValues
  | sessions
  | recentPasswords
  | webids
  | devices
  | refreshTokensDevices
  deriving DecidableEq

structure ConfigEntity where
  id : String
  data : Bytes

def ConfigEntity.isPolicy (r : ConfigEntity) : Bool := r.id == "password_policy"

/-- A row of `auth_provider_logos` or of `client_logos` -/
structure LogoRow where
  ownerId : String
  res : String
  contentType : String
  data : Bytes

structure ColorEntity where
  clientId : String
  data : Bytes

structure EventRow where
  id : String
  timestamp : Int
  level : Int
  typ : Int
  ip : Option String
  data : Option Int
  text : Option String

structure WebId where
  userId : String
  customTriples : Option String
  exposeEmail : Bool

abbrev SqlRow : SqlTable → Type
  | .config => ConfigEntity
  | .apiKeys => ApiKeyEntity
  | .authProviders => AuthProvider
  | .authProviderLogos => LogoRow
  | .users => User
  | .passkeys => PasskeyEntity
  | .clients => Client
  | .clientsDyn => ClientDyn
  | .clientLogos => LogoRow
  | .colors => ColorEntity
  | .groups => Group
  | .jwks => Jwk
  | .magicLinks => MagicLink
  | .refreshTokens => RefreshToken
  | .roles => Role
  | .scopes => Scope
  | .events => EventRow
  | .userAttrConfig => UserAttrConfigEntity
  | .userAttrValues => UserAttrValueEntity
  | .usersValues => UserValues
  | .sessions => Session
  | .recentPasswords => RecentPasswordsEntity
  | .webids => WebId
  | .devices => DeviceEntity
  | .refreshTokensDevices => RefreshTokenDevice

/-- Two values of a unique column; NULL is not equal to NULL. -/
def sameValue (a b : Option String) : Bool := a.isSome && a == b

/-- The primary keys and the unique columns -/
def sqlConflicts : (t : SqlTable) → SqlRow t → SqlRow t → Bool
  | .config, a, b => a.id == b.id
  | .apiKeys, a, b => a.name == b.name
  | .authProviders, a, b => a.id == b.id
  | .authProviderLogos, a, b => a.ownerId == b.ownerId && a.res == b.res
  | .users, a, b => a.id == b.id || a.email == b.email ||
      sameValue a.webauthnUserId b.webauthnUserId ||
      (sameValue a.authProviderId b.authProviderId && sameValue a.federationUid b.federationUid)
  | .passkeys, a, b => (a.userId == b.userId && a.name == b.name) ||
      a.credentialId == b.credentialId
  | .clients, a, b => a.id == b.id
  | .clientsDyn, a, b => a.id == b.id
  | .clientLogos, a, b => a.ownerId == b.ownerId && a.res == b.res
  | .colors, a, b => a.clientId == b.clientId
  | .groups, a, b => a.id == b.id
  | .jwks, a, b => a.kid == b.kid
  | .magicLinks, a, b => a.id == b.id
  | .refreshTokens, a, b => a.id == b.id
  | .roles, a, b => a.id == b.id
  | .scopes, a, b => a.id == b.id
  | .events, a, b => a.id == b.id && a.timestamp == b.timestamp
  | .userAttrConfig, a, b => a.name == b.name
  | .userAttrValues, a, b => a.userId == b.userId && a.key == b.key
  | .usersValues, a, b => a.id == b.id
  | .sessions, a, b => a.id == b.id
  | .recentPasswords, a, b => a.userId == b.userId
  | .webids, a, b => a.userId == b.userId
  | .devices, a, b => a.id == b.id
  | .refreshTokensDevices, a, b => a.id == b.id

/-- `on delete cascade` -/
def cascades {t : SqlTable} (parent : SqlTable) (key : SqlRow parent → Option String)
    (ref : SqlRow t → Option String) : ForeignKey SqlRow t :=
  { parent, ref, key, onDelete := fun _ => none }

/-- `references users on delete cascade` -/
def refsUser {t : SqlTable} (ref : SqlRow t → Option String) : ForeignKey SqlRow t :=
  cascades .users (fun u => some u.id) ref

/-- `references clients on delete cascade` -/
def refsClient {t : SqlTable} (ref : SqlRow t → Option String) : ForeignKey SqlRow t :=
  cascades .clients (fun c => some c.id) ref

/-- With Postgres, the passkeys also refer to the WebAuthn ids of the users. -/
def sqlForeignKeys (target : DbType) : (t : SqlTable) → List (ForeignKey SqlRow t)
  | .authProviderLogos => [cascades .authProviders (fun p => some p.id) fun l => some l.ownerId]
  | .users =>
      [{ parent := .authProviders
         ref := fun u => u.authProviderId
         key := fun p => some p.id
         -- `on delete set null`
         onDelete := fun u => some { u with authProviderId := none } }]
  | .passkeys =>
      match target with
      | .sqlite => [refsUser fun p => some p.userId]
      | .postgres => [refsUser fun p => some p.userId,
          cascades .users (fun u => u.webauthnUserId) fun p => some p.passkeyUserId]
  | .clientsDyn => [refsClient fun c => some c.id]
  | .clientLogos => [refsClient fun l => some l.ownerId]
  | .colors => [refsClient fun c => some c.clientId]
  | .magicLinks => [refsUser fun l => some l.userId]
  | .refreshTokens => [refsUser fun rt => some rt.userId]
  | .userAttrValues => [refsUser fun v => some v.userId,
      cascades .userAttrConfig (fun a => some a.name) fun v => some v.key]
  | .usersValues => [refsUser fun v => some v.id]
  | .sessions => [refsUser fun s => s.userId]
  | .recentPasswords => [refsUser fun p => some p.userId]
  | .webids => [refsUser fun w => some w.userId]
  | .devices => [refsClient fun d => some d.clientId, refsUser fun d => d.userId]
  | .refreshTokensDevices => [cascades .devices (fun d => some d.id) fun rt => some rt.deviceId,
      refsUser fun rt => some rt.userId]
  | _ => []

/-! ### The migration -/

/-- The tables, in the order in which they are copied, until the password policy -/
def tablesBeforePolicy : List SqlTable :=
  [.config, .apiKeys, .authProviders, .authProviderLogos, .users, .passkeys, .clients, .clientsDyn,
    .clientLogos, .colors, .groups, .jwks, .magicLinks]

def tablesAfterPolicy : List SqlTable :=
  [.refreshTokens, .roles, .scopes, .events, .userAttrConfig, .userAttrValues, .usersValues,
    .sessions, .recentPasswords, .webids]

theorem sqlForeignKeys_ordered (target : DbType) : ParentsFirst (sqlForeignKeys target) []
    (tablesBeforePolicy ++ tablesAfterPolicy ++ [.devices, .refreshTokensDevices]) := by
  cases target <;> decide

def sqlSchema (target : DbType) : Schema SqlRow where
  conflicts := sqlConflicts
  foreignKeys := sqlForeignKeys target
  order := tablesBeforePolicy ++ tablesAfterPolicy ++ [.devices, .refreshTokensDevices]
  ordered := sqlForeignKeys_ordered target

/-- What the columns say that an `insert` does not name: their default, or NULL -/
def migratedRow : (t : SqlTable) → SqlRow t → SqlRow t
  | .clientsDyn, c => { c with lastUsed := none }
  | .refreshTokens, rt => { rt with isMfa := false }
  | .sessions, s => { s with remoteIp := none }
  | _, r => r

/-- From Postgres, two tables are written with `insert or replace`, which only SQLite knows. -/
def migrationWriting (source target : DbType) : SqlTable → Writing
  | .authProviderLogos =>
      match source, target with
      | .postgres, .postgres => .unknown
      | _, _ => .replace
  | .usersValues =>
      match source, target with
      | .sqlite, _ => .insert
      | .postgres, .sqlite => .replace
      | .postgres, .postgres => .unknown
  | _ => .insert

def migrationCopying (source target : DbType) : Copying SqlRow where
  convert := migratedRow
  writing := migrationWriting source target

/-- The policy is read from the source again, and it has to be there. -/
def migratePasswordPolicy (src db : Tables SqlRow) : Option (Tables SqlRow) :=
  match (src .config).find? ConfigEntity.isPolicy with
  | none => none
  | some res =>
      some (Function.update db .config ((db .config).map fun r =>
        if r.isPolicy then { r with data := res.data } else r))

/-- `migrate_from_sqlite` and `migrate_from_postgres`, as their source is; `none` if they return an
error -/
def migrateFrom (source target : DbType) (src db : Tables SqlRow) : Option (Tables SqlRow) := do
  let copy := (sqlSchema target).copyTables (migrationCopying source target) src
  let db ← copy db tablesBeforePolicy
  let db ← migratePasswordPolicy src db
  copy db tablesAfterPolicy

/-! ### What becomes of the data -/

/-- All that a migration leaves of a database. -/
def migrated (src : Tables SqlRow) : Tables SqlRow
  | .devices => []
  | .refreshTokensDevices => []
  | t => (src t).map (migratedRow t)

/-- The sources that can be migrated. -/
structure Migratable (source target : DbType) (src : Tables SqlRow) : Prop where
  policy : ∃ row ∈ src .config, row.isPolicy = true
  statements : source = .postgres → target = .postgres →
    src .authProviderLogos = [] ∧ src .usersValues = []

section Migration

variable {source target : DbType} {src db db' : Tables SqlRow}
  {t : SqlTable}

/-- The tables that others refer to. -/
def referredTables : List SqlTable := [.authProviders, .users, .clients, .userAttrConfig, .devices]

theorem parent_mem_referred (target : DbType) (t : SqlTable) :
    ∀ fk ∈ sqlForeignKeys target t, fk.parent ∈ referredTables := by
  cases target <;> cases t <;> decide

theorem migratedRow_referred (ht : t ∈ referredTables) (r : SqlRow t) :
    migratedRow t r = r := by
  cases t with
  | clientsDyn => exact absurd ht (by decide)
  | refreshTokens => exact absurd ht (by decide)
  | sessions => exact absurd ht (by decide)
  | _ => rfl

theorem keeps_migration : (sqlSchema target).Keeps (migrationCopying source target) where
  conflicts t a b := by cases t <;> rfl
  ref t fk hfk r := by
    cases t with
    | clientsDyn =>
        cases List.mem_singleton.mp hfk
        rfl
    | refreshTokens =>
        cases List.mem_singleton.mp hfk
        rfl
    | sessions =>
        cases List.mem_singleton.mp hfk
        rfl
    | _ => rfl
  key t fk hfk r := by
    show fk.key (migratedRow fk.parent r) = fk.key r
    rw [migratedRow_referred (parent_mem_referred target t fk hfk)]

/-- The copied tables, the last one first. -/
def migratedTables : List SqlTable :=
  tablesAfterPolicy.reverse ++ (tablesBeforePolicy.reverse ++ [])

theorem mem_migratedTables (t : SqlTable) :
    t ∈ migratedTables ∨ t = .devices ∨ t = .refreshTokensDevices := by
  cases t <;> decide

theorem not_mem_migratedTables (ht : t = .devices ∨ t = .refreshTokensDevices) :
    t ∉ migratedTables := by
  obtain rfl | rfl := ht <;> decide

/-- No device is without its client, and no refresh token of a device without its user. -/
theorem needs_migrated (ht : t = .devices ∨ t = .refreshTokensDevices) :
    (sqlSchema target).Needs migratedTables t := by
  obtain rfl | rfl := ht
  · apply And.intro (by show _ ∈ tablesBeforePolicy ++ _ ++ _; decide)
    apply Exists.intro (refsClient (t := .devices) fun d => some d.clientId)
    apply And.intro List.mem_cons_self
    apply And.intro (by decide)
    exact fun _ => ⟨Option.some_ne_none _, rfl⟩
  · apply And.intro (by show _ ∈ tablesBeforePolicy ++ _ ++ _; decide)
    apply Exists.intro (refsUser (t := .refreshTokensDevices) fun rt => some rt.userId)
    apply And.intro (List.mem_cons_of_mem _ List.mem_cons_self)
    apply And.intro (by decide)
    exact fun _ => ⟨Option.some_ne_none _, rfl⟩

theorem migrated_of_mem (ht : t ∈ migratedTables) :
    migrated src t = (src t).map (migratedRow t) := by
  cases t with
  | devices => exact absurd ht (by decide)
  | refreshTokensDevices => exact absurd ht (by decide)
  | _ => rfl

theorem migrated_nil (ht : t = .devices ∨ t = .refreshTokensDevices) :
    migrated src t = [] := by
  obtain rfl | rfl := ht <;> rfl

theorem eq_migrated
    (h : (sqlSchema target).Copied (migrationCopying source target) src migratedTables db) :
    db = migrated src := by
  funext t
  obtain ht | ht := mem_migratedTables t
  · rw [migrated_of_mem ht]
    exact h.rows t ht
  · rw [migrated_nil ht]
    exact h.empty t (not_mem_migratedTables ht) (needs_migrated ht)

theorem parents_migratedTables (target : DbType) :
    ∀ t ∈ migratedTables, ∀ fk ∈ sqlForeignKeys target t, fk.parent ∈ migratedTables := by
  cases target <;> decide

theorem copied_migrated :
    (sqlSchema target).Copied (migrationCopying source target) src migratedTables
      (migrated src) where
  closed := parents_migratedTables target
  rows _ ht := migrated_of_mem ht
  empty t ht _ := migrated_nil ((mem_migratedTables t).resolve_left ht)

/-- The policy of the source is the one that has been copied already. -/
theorem migratePasswordPolicy_copied (hsrc : (sqlSchema target).Valid src)
    (hconfig : db .config = src .config)
    (hpolicy : ∃ row ∈ src .config, row.isPolicy = true) :
    migratePasswordPolicy src db = some db := by
  obtain ⟨row, hrow, hid⟩ := hpolicy
  have hids : ((src .config).map ConfigEntity.id).Nodup := by
    apply List.pairwise_map.mpr
    apply (hsrc.distinct .config).imp
    intro a b hab he
    have hne : (b.id == a.id) = false := hab
    rw [he, beq_self_eq_true] at hne
    cases hne
  obtain ⟨res, hres⟩ := Option.isSome_iff_exists.mp
    (List.find?_isSome.mpr ⟨row, hrow, hid⟩)
  rw [migratePasswordPolicy, hres, hconfig]
  have hsame : ∀ r ∈ src .config,
      (if r.isPolicy then { r with data := res.data } else r) = r := by
    intro r hr
    by_cases hr' : r.isPolicy = true
    · rw [if_pos hr']
      -- the ids are unique, so it is the row that has been found
      have hres' : res.isPolicy = true := List.find?_some hres
      have he : r.id = res.id := (eq_of_beq hr').trans (eq_of_beq hres').symm
      rw [List.inj_on_of_nodup_map hids hr (List.mem_of_find?_eq_some hres) he]
    · rw [if_neg hr']
  show some (Function.update db .config ((src .config).map _)) = some db
  rw [List.map_congr_left hsame, List.map_id'', ← hconfig, Function.update_eq_self]
  exact fun _ => rfl

theorem writing_of_migratable (hm : Migratable source target src) (t : SqlTable) :
    src t = [] ∨ migrationWriting source target t ≠ .unknown := by
  have hne : Writing.insert ≠ .unknown := Writing.noConfusion
  have hne' : Writing.replace ≠ .unknown := Writing.noConfusion
  cases t with
  | authProviderLogos =>
      cases source with
      | sqlite => exact .inr hne'
      | postgres =>
          cases target with
          | sqlite => exact .inr hne'
          | postgres => exact .inl (hm.statements rfl rfl).1
  | usersValues =>
      cases source with
      | sqlite => exact .inr hne
      | postgres =>
          cases target with
          | sqlite => exact .inr hne'
          | postgres => exact .inl (hm.statements rfl rfl).2
  | _ => exact .inr hne

theorem migrateFrom_eq (hsrc : (sqlSchema target).Valid src) (hm : Migratable source target src) :
    migrateFrom source target src db = some (migrated src) := by
  have hkeeps : (sqlSchema target).Keeps (migrationCopying source target) := keeps_migration
  have hbefore : ParentsFirst (sqlForeignKeys target) [] tablesBeforePolicy := by
    cases target <;> decide
  have hafter : ParentsFirst (sqlForeignKeys target) (tablesBeforePolicy.reverse ++ [])
      tablesAfterPolicy := by
    cases target <;> decide
  have hnil : (sqlSchema target).Copied (migrationCopying source target) src [] db :=
    Schema.copied_nil
  obtain ⟨db₁, hdb₁, h₁⟩ := Schema.copyTables_state hsrc hkeeps hnil hbefore
    fun t _ => writing_of_migratable hm t
  have hconfig : db₁ .config = src .config := by
    rw [h₁.rows .config (by decide)]
    exact List.map_id _
  obtain ⟨db₂, hdb₂, h₂⟩ := Schema.copyTables_state hsrc hkeeps h₁ hafter
    fun t _ => writing_of_migratable hm t
  rw [migrateFrom, hdb₁]
  show (migratePasswordPolicy src db₁).bind _ = _
  rw [migratePasswordPolicy_copied hsrc hconfig hm.policy, Option.bind_some, hdb₂, eq_migrated h₂]

/-- A migration that is done has found the policy, and written the two tables. -/
theorem migratable_of_migrateFrom (h : migrateFrom source target src db = some db') :
    Migratable source target src := by
  obtain ⟨db₁, hbefore, h⟩ := Option.bind_eq_some_iff.mp h
  obtain ⟨db₂, hpolicy, hafter⟩ := Option.bind_eq_some_iff.mp h
  constructor
  · rw [migratePasswordPolicy] at hpolicy
    cases hfind : (src .config).find? ConfigEntity.isPolicy with
    | none =>
        rw [hfind] at hpolicy
        cases hpolicy
    | some row =>
        exact ⟨row, List.mem_of_find?_eq_some hfind, List.find?_some hfind⟩
  · rintro rfl rfl
    apply And.intro
    · by_contra hne
      rw [Schema.copyTables_unknown (t := .authProviderLogos) (by decide) hne rfl] at hbefore
      cases hbefore
    · by_contra hne
      rw [Schema.copyTables_unknown (t := .usersValues) (by decide) hne rfl] at hafter
      cases hafter

/-- **What a migration does**, to every target, from every source that obeys its constraints: it is
done exactly if the source can be migrated, and then the target is what is left of the source, and
obeys them too. -/
theorem migration_exact (hsrc : (sqlSchema target).Valid src) :
    (migrateFrom source target src db = some db' ↔
        Migratable source target src ∧ db' = migrated src) ∧
      (sqlSchema target).Valid (migrated src) := by
  constructor
  · constructor
    · intro h
      have hm := migratable_of_migrateFrom h
      rw [migrateFrom_eq hsrc hm] at h
      exact ⟨hm, (Option.some.inj h).symm⟩
    · rintro ⟨hm, rfl⟩
      exact migrateFrom_eq hsrc hm
  · have hkeeps : (sqlSchema target).Keeps (migrationCopying .sqlite target) := keeps_migration
    apply Schema.Copied.valid hsrc hkeeps copied_migrated
    intro t ht
    exact needs_migrated ((mem_migratedTables t).resolve_left ht)

/-- A database with one user who is logged in, with MFA. -/
def loggedInDb : Tables SqlRow
  | .config => [⟨"password_policy", []⟩]
  | .users => [sampleUser]
  | .sessions =>
      [{ id := "session", csrfToken := "csrf", userId := some sampleUser.id, roles := none
         groups := none, isMfa := true, state := .auth, exp := 1000, lastSeen := 0
         remoteIp := some "1.2.3.4" }]
  | .refreshTokens =>
      [{ id := "token", userId := sampleUser.id, nbf := 0, exp := 1000, scope := none
         isMfa := true }]
  | _ => []

theorem valid_loggedInDb : (sqlSchema .postgres).Valid loggedInDb where
  distinct t := by
    cases t with
    | config => exact List.pairwise_singleton _ _
    | users => exact List.pairwise_singleton _ _
    | sessions => exact List.pairwise_singleton _ _
    | refreshTokens => exact List.pairwise_singleton _ _
    | _ => exact .nil
  references t r hr fk hfk := by
    cases t with
    | config => cases hfk
    | users =>
        cases List.mem_singleton.mp hr
        cases List.mem_singleton.mp hfk
        rfl
    | sessions =>
        cases List.mem_singleton.mp hr
        cases List.mem_singleton.mp hfk
        decide
    | refreshTokens =>
        cases List.mem_singleton.mp hr
        cases List.mem_singleton.mp hfk
        decide
    | _ => cases hr

/-- From SQLite to Postgres: the IP of the session and the MFA of the refresh token are lost. -/
theorem migration_exact_login :
    migrateFrom .sqlite .postgres loggedInDb loggedInDb = some (migrated loggedInDb) ∧
      (migrated loggedInDb .sessions).map (·.remoteIp) = [none] ∧
      (migrated loggedInDb .refreshTokens).map (·.isMfa) = [false] := by
  apply And.intro _ ⟨rfl, rfl⟩
  apply (migration_exact valid_loggedInDb).1.mpr
  apply And.intro _ rfl
  constructor
  · exact ⟨_, List.mem_singleton_self _, rfl⟩
  · intro hsource
    cases hsource

end Migration

end Rauthy
