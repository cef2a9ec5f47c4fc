/-
Rauthy/World.lean

What the requests act on: the database, the distributed caches, the clock, the
random generator and the outside services.  Each operation is one atomic step of a
request; `Op.run` gives its outcome for a choice of the environment (the time, the
random string, a cache miss, a failure), and `sem` allows every choice.

A failed database or cache write may have taken effect nevertheless, and a cache
entry can be gone at any time.  The Webauthn library answers as documented: a
ceremony ends well only with a credential that was put into its challenge.
-/
import Mathlib.Logic.Function.Basic
import Rauthy.Lib.Pool
import Rauthy.Lib.Rows
import Rauthy.Lib.Text
import Rauthy.Data

namespace Rauthy

variable {db : Db}

/-! ### Database and caches -/

inductive Table where
  | users
  | usersValues
  | userAttrConfig
  | userAttrValues
  | recentPasswords
  | passwordPolicy
  | roles
  | groups
  | scopes
  | magicLinks
  | sessions
  | clients
  | clientsDyn
  | refreshTokens
  | refreshTokensDevices
  | devices
  | jwks
  | passkeys
  | authProviders
  | apiKeys
  deriving DecidableEq

/-- The rows of each table. -/
abbrev Row : Table → Type
  | .users => User
  | .usersValues => UserValues
  | .userAttrConfig => UserAttrConfigEntity
  | .userAttrValues => UserAttrValueEntity
  | .recentPasswords => RecentPasswordsEntity
  | .passwordPolicy => PasswordPolicy
  | .roles => Role
  | .groups => Group
  | .scopes => Scope
  | .magicLinks => MagicLink
  | .sessions => Session
  | .clients => Client
  | .clientsDyn => ClientDyn
  | .refreshTokens => RefreshToken
  | .refreshTokensDevices => RefreshTokenDevice
  | .devices => DeviceEntity
  | .jwks => Jwk
  | .passkeys => PasskeyEntity
  | .authProviders => AuthProvider
  | .apiKeys => ApiKeyEntity

/-- Two rows have the same primary key. -/
def sameKey : (t : Table) → Row t → Row t → Bool
  | .users, a, b => a.id == b.id
  | .usersValues, a, b => a.id == b.id
  | .userAttrConfig, a, b => a.name == b.name
  | .userAttrValues, a, b => a.userId == b.userId && a.key == b.key
  | .recentPasswords, a, b => a.userId == b.userId
  | .passwordPolicy, _, _ => true
  | .roles, a, b => a.id == b.id
  | .groups, a, b => a.id == b.id
  | .scopes, a, b => a.id == b.id
  | .magicLinks, a, b => a.id == b.id
  | .sessions, a, b => a.id == b.id
  | .clients, a, b => a.id == b.id
  | .clientsDyn, a, b => a.id == b.id
  | .refreshTokens, a, b => a.id == b.id
  | .refreshTokensDevices, a, b => a.id == b.id
  | .devices, a, b => a.id == b.id
  | .jwks, a, b => a.kid == b.kid
  | .passkeys, a, b => a.userId == b.userId && a.name == b.name
  | .authProviders, a, b => a.id == b.id
  | .apiKeys, a, b => a.name == b.name

/-- A row cannot be inserted next to the other one: same primary key, or one of the
unique columns. -/
def conflicts : (t : Table) → Row t → Row t → Bool
  | .users, a, b => sameKey .users a b || a.email == b.email
  | t, a, b => sameKey t a b

abbrev Db := (t : Table) → List (Row t)

/-- One statement that changes a table. -/
inductive DbWrite where
  | insert (t : Table) (r : Row t)
  | upsert (t : Table) (r : Row t)
  | update (t : Table) (p : Row t → Bool) (f : Row t → Row t)
  | delete (t : Table) (p : Row t → Bool)
  /-- What a foreign key deletes along, by the rows of other tables. -/
  | cascade (t : Table) (p : Db → Row t → Bool)

/-- The table a statement changes. -/
def DbWrite.table : DbWrite → Table
  | insert t _ => t
  | upsert t _ => t
  | update t _ _ => t
  | delete t _ => t
  | cascade t _ => t

/-- The effect of a statement; `none` if a uniqueness constraint is violated. -/
def DbWrite.apply : DbWrite → Db → Option Db
  | insert t r, db =>
      if (db t).any (conflicts t r) then none
      else some (Function.update db t (db t ++ [r]))
  | upsert t r, db =>
      some (Function.update db t ((db t).filter (fun r' => !sameKey t r r') ++ [r]))
  | update t p f, db =>
      some (Function.update db t ((db t).map fun r => if p r then f r else r))
  | delete t p, db => some (Function.update db t ((db t).filter fun r => !p r))
  | cascade t p, db => some (Function.update db t ((db t).filter fun r => !p db r))

/-- The statements of a transaction, applied at its commit. -/
def applyAll : List DbWrite → Db → Option Db
  | [], db => some db
  | s :: ss, db => (s.apply db).bind (applyAll ss)

/-- The column `email` of the users is unique. -/
def UniqueEmails (db : Db) : Prop := UniqueKey User.email (db .users)

instance (db : Db) : Decidable (UniqueEmails db) :=
  inferInstanceAs (Decidable ((db .users).map User.email).Nodup)

/-- A transaction can be committed: its statements apply, and no update has given two users one
e-mail. -/
structure Commits (ss : List DbWrite) (db db' : Db) : Prop where
  applied : applyAll ss db = some db'
  unique : UniqueEmails db → UniqueEmails db'

/-- Statements that leave the e-mails alone are committed. -/
theorem Commits.of_emails {ss : List DbWrite} {db' : Db} (h : applyAll ss db = some db')
    (hu : (db' .users).map User.email = (db .users).map User.email) : Commits ss db db' where
  applied := h
  unique hdb := by
    show ((db' .users).map User.email).Nodup
    rw [hu]
    exact hdb

theorem Commits.of_insert {t : Table} {r : Row t} (ht : t ≠ .users)
    (h : ∀ r' ∈ db t, conflicts t r r' = false) :
    Commits [.insert t r] db (Function.update db t (db t ++ [r])) := by
  have happly : (DbWrite.insert t r).apply db = some (Function.update db t (db t ++ [r])) := by
    refine if_neg fun hany => ?_
    obtain ⟨r', hr', hconflict⟩ := List.any_eq_true.mp hany
    rw [h r' hr'] at hconflict
    cases hconflict
  refine .of_emails ?_ (by rw [Function.update_of_ne ht.symm])
  rw [applyAll, happly]
  rfl

/-- The database after the commit of a transaction; `none` if it is refused. -/
def commit (ss : List DbWrite) (db : Db) : Option Db :=
  match applyAll ss db with
  | some db' => if UniqueEmails db → UniqueEmails db' then some db' else none
  | none => none

theorem commit_eq_some {ss : List DbWrite} {db' : Db} :
    commit ss db = some db' ↔ Commits ss db db' := by
  unfold commit
  constructor
  · intro h
    split at h
    · next db₁ happly =>
        split at h
        · next hu => cases h; exact ⟨happly, hu⟩
        · cases h
    · cases h
  · intro h
    simp only [h.applied]
    exact if_pos h.unique

inductive CacheName where
  | c12hr
  | authCodes
  | deviceCodes
  | authProviderCallback
  | clientsDyn
  | dpopNonces
  | ephemeralClients
  | ipRateLimit
  | loginDelay
  | pow
  | sessions
  | users
  | webauthn
  | webauthnData
  deriving DecidableEq

/-- What is stored in the caches.  `bytes` is a value kept as its encoding, because
entries of the cache are read back at other types than they were written. -/
inductive CacheVal where
  | session (v : Session)
  | user (v : User)
  | userValues (v : Option UserValues)
  | userAttrValues (v : List UserAttrValueEntity)
  | userAttr (v : UserAttrConfigEntity)
  | userAttrs (v : List UserAttrConfigEntity)
  | count (v : Int)
  | client (v : Client)
  | clients (v : List Client)
  | clientDyn (v : ClientDyn)
  | rateLimit (v : Int)
  | roles (v : List Role)
  | groups (v : List Group)
  | scopes (v : List Scope)
  | wellKnown (json : String)
  | policy (v : PasswordPolicy)
  | jwkKeyPair (v : JwkKeyPair)
  | jwks (keys : List JWKSPublicKey)
  | authProvider (v : AuthProvider)
  | authProviders (v : List AuthProvider)
  | authProviderCallback (v : AuthProviderCallback)
  | authCode (v : AuthCode)
  | deviceAuthCode (v : DeviceAuthCode)
  | dpopNonce (v : DPoPNonce)
  | passkey (v : PasskeyEntity)
  | passkeys (v : List PasskeyEntity)
  | credIds (v : List CredentialID)
  | webauthnReg (v : WebauthnReg)
  | pow (challenge : String)
  | apiKey (v : ApiKey)
  | bytes (v : Bytes)
  deriving DecidableEq

/-- The kinds of entries, one for each stored type. -/
inductive Slot where
  | session
  | user
  | userValues
  | userAttrValues
  | userAttr
  | userAttrs
  | count
  | client
  | clients
  | clientDyn
  | rateLimit
  | roles
  | groups
  | scopes
  | wellKnown
  | policy
  | jwkKeyPair
  | jwks
  | authProvider
  | authProviders
  | authProviderCallback
  | authCode
  | deviceAuthCode
  | dpopNonce
  | passkey
  | passkeys
  | credIds
  | webauthnReg
  | pow
  | apiKey
  | bytes
  deriving DecidableEq

def CacheVal.slot : CacheVal → Slot
  | session _ => .session
  | user _ => .user
  | userValues _ => .userValues
  | userAttrValues _ => .userAttrValues
  | userAttr _ => .userAttr
  | userAttrs _ => .userAttrs
  | count _ => .count
  | client _ => .client
  | clients _ => .clients
  | clientDyn _ => .clientDyn
  | rateLimit _ => .rateLimit
  | roles _ => .roles
  | groups _ => .groups
  | scopes _ => .scopes
  | wellKnown _ => .wellKnown
  | policy _ => .policy
  | jwkKeyPair _ => .jwkKeyPair
  | jwks _ => .jwks
  | authProvider _ => .authProvider
  | authProviders _ => .authProviders
  | authProviderCallback _ => .authProviderCallback
  | authCode _ => .authCode
  | deviceAuthCode _ => .deviceAuthCode
  | dpopNonce _ => .dpopNonce
  | passkey _ => .passkey
  | passkeys _ => .passkeys
  | credIds _ => .credIds
  | webauthnReg _ => .webauthnReg
  | pow _ => .pow
  | apiKey _ => .apiKey
  | bytes _ => .bytes

/-- The state of the system outside the requests in flight. -/
structure World where
  /-- the time in milliseconds since the epoch -/
  clock : Int
  /-- the random strings handed out so far -/
  issued : List String
  db : Db
  cache : CacheName → String → Option CacheVal

namespace World

/-- The world after `cache_insert` / `cache_put`. -/
def put (w : World) (c : CacheName) (k : String) (v : CacheVal) : World :=
  { w with cache := fun c' k' => if c' = c ∧ k' = k then some v else w.cache c' k' }

/-- The world after `cache_remove` / `cache_del`, or after an entry has expired. -/
def del (w : World) (c : CacheName) (k : String) : World :=
  { w with cache := fun c' k' => if c' = c ∧ k' = k then none else w.cache c' k' }

end World

/-! ### Operations -/

structure AuthProviderAddressClaims where
  streetAddress : Option String
  postalCode : Option Int
  country : Option String
  deriving DecidableEq, Inhabited

/-- The claims about a user that an upstream provider answers with. -/
structure AuthProviderIdClaims where
  sub : Option String
  id : Option String
  uid : Option String
  email : Option String
  emailVerified : Option Bool
  name : Option String
  givenName : Option String
  familyName : Option String
  address : Option AuthProviderAddressClaims
  birthdate : Option String
  locale : Option String
  phone : Option String
  /-- the whole answer, in which the configured paths are looked up -/
  jsonBytes : Bytes
  deriving DecidableEq, Inhabited

inductive Op where
  | now
  | getRand (n : ℕ)
  | newUuid
  | hashPassword (plain : String)
  | select (t : Table) (p : Row t → Bool)
  | execute (ss : List DbWrite)
  | cacheGet (c : CacheName) (k : String)
  | cachePut (c : CacheName) (k : String) (v : CacheVal)
  | cacheDel (c : CacheName) (k : String)
  | startPasskeyAuthentication (pks : List Passkey)
  | finishPasskeyAuthentication (cred : String) (st : PasskeyAuthentication)
  | startPasskeyRegistration (uniqueId : String) (exclude : List CredentialID)
  | finishPasskeyRegistration (cred : String) (st : PasskeyRegistration)
  | fetchEphemeralClient (url : String)
  | exchangeUpstreamCode (provider : AuthProvider) (code : String)

/-- The answer of each operation. -/
abbrev Op.Res : Op → Type
  | .now => Int
  | .getRand _ => String
  | .newUuid => String
  | .hashPassword _ => Except ErrorResponse String
  | .select t _ => Except ErrorResponse (List (Row t))
  | .execute _ => Except ErrorResponse Unit
  | .cacheGet _ _ => Except ErrorResponse (Option CacheVal)
  | .cachePut _ _ _ => Except ErrorResponse Unit
  | .cacheDel _ _ => Except ErrorResponse Unit
  | .startPasskeyAuthentication _ => Except String PasskeyAuthentication
  | .finishPasskeyAuthentication _ _ => Except String AuthenticationResult
  | .startPasskeyRegistration _ _ => Except String PasskeyRegistration
  | .finishPasskeyRegistration _ _ => Except String (Passkey × Bool)
  | .fetchEphemeralClient _ => Except ErrorResponse Client
  | .exchangeUpstreamCode _ _ => Except ErrorResponse AuthProviderIdClaims

/-- What the environment decides about an operation. -/
inductive Choice where
  | ok
  | time (ms : Int)
  | rand (s : String)
  | miss
  | fail (e : ErrorResponse) (applied : Bool)
  | refuse (msg : String)
  | assertion (r : AuthenticationResult)
  | registered (pk : Passkey) (userVerified : Bool)
  | client (c : Client)
  | claims (c : AuthProviderIdClaims)

/-- `[a-zA-Z0-9]` -/
def isAlnum (c : Char) : Bool :=
  ('a' ≤ c && c ≤ 'z') || ('A' ≤ c && c ≤ 'Z') || ('0' ≤ c && c ≤ '9')

theorem utf8Size_of_isAlnum {c : Char} (h : isAlnum c = true) : c.utf8Size = 1 := by
  rw [Char.utf8Size_eq_one_iff]
  simp only [isAlnum, Bool.or_eq_true, Bool.and_eq_true, decide_eq_true_eq] at h
  rcases h with (⟨-, h⟩ | ⟨-, h⟩) | ⟨-, h⟩
  · exact UInt32.le_trans h (by decide)
  · exact UInt32.le_trans h (by decide)
  · exact UInt32.le_trans h (by decide)

/-- The outcome of a write that can fail with or without having taken effect. -/
def runWrite (w w' : World) : Choice → Option (Except ErrorResponse Unit × World)
  | .ok => some (.ok (), w')
  | .fail e applied => some (.error e, if applied then w' else w)
  | _ => none

/-- The outcome of an operation under a choice of the environment; `none` if the
choice is not one for this operation. -/
def Op.run (c : Choice) (o : Op) (w : World) : Option (o.Res × World) :=
  match o, c with
  | .now, .time ms => if w.clock ≤ ms then some (ms, { w with clock := ms }) else none
  | .getRand n, .rand s =>
      if s ∉ w.issued ∧ s.toList.length = n ∧ s.toList.all isAlnum then
        some (s, { w with issued := s :: w.issued })
      else none
  | .newUuid, .rand s =>
      if s ∉ w.issued then some (s, { w with issued := s :: w.issued }) else none
  | .hashPassword _, .rand s => some (.ok s, w)
  | .hashPassword _, .fail e _ => some (.error e, w)
  | .select t p, .ok => some (.ok ((w.db t).filter p), w)
  | .select _ _, .fail e _ => some (.error e, w)
  | .execute ss, c =>
      match commit ss w.db with
      | some db => runWrite w { w with db } c
      | none =>
          match c with
          | .fail e _ => some (.error e, w)
          | _ => none
  | .cacheGet n k, .ok => some (.ok (w.cache n k), w)
  | .cacheGet n k, .miss => some (.ok none, w.del n k)
  | .cacheGet _ _, .fail e _ => some (.error e, w)
  | .cachePut n k v, c => runWrite w (w.put n k v) c
  | .cacheDel n k, c => runWrite w (w.del n k) c
  | .startPasskeyAuthentication pks, .rand s =>
      some (.ok ⟨s, pks.map Passkey.credId⟩, w)
  | .startPasskeyAuthentication _, .refuse msg => some (.error msg, w)
  | .finishPasskeyAuthentication _ st, .assertion r =>
      if r.credId ∈ st.credentials then some (.ok r, w) else none
  | .finishPasskeyAuthentication _ _, .refuse msg => some (.error msg, w)
  | .startPasskeyRegistration uid excl, .rand s => some (.ok ⟨s, uid, excl⟩, w)
  | .startPasskeyRegistration _ _, .refuse msg => some (.error msg, w)
  | .finishPasskeyRegistration _ _, .registered pk uv => some (.ok (pk, uv), w)
  | .finishPasskeyRegistration _ _, .refuse msg => some (.error msg, w)
  | .fetchEphemeralClient _, .client cl => some (.ok cl, w)
  | .fetchEphemeralClient _, .fail e _ => some (.error e, w)
  | .exchangeUpstreamCode _ _, .claims cl => some (.ok cl, w)
  | .exchangeUpstreamCode _ _, .fail e _ => some (.error e, w)
  | _, _ => none

/-- The operations under every choice of the environment. -/
def sem : (o : Op) → World → o.Res → World → Prop := Pool.semOf Op.run

/-! ### What each operation can do -/

section Sem

variable {w w' : World}
  {x : Except ErrorResponse Unit} {c : CacheName} {k : String}

@[simp] theorem World.put_db (w : World) (c : CacheName) (k : String) (v : CacheVal) :
    (w.put c k v).db = w.db := rfl

@[simp] theorem World.del_db (w : World) (c : CacheName) (k : String) :
    (w.del c k).db = w.db := rfl

@[simp] theorem World.put_clock (w : World) (c : CacheName) (k : String) (v : CacheVal) :
    (w.put c k v).clock = w.clock := rfl

@[simp] theorem World.del_clock (w : World) (c : CacheName) (k : String) :
    (w.del c k).clock = w.clock := rfl

@[simp] theorem World.put_issued (w : World) (c : CacheName) (k : String) (v : CacheVal) :
    (w.put c k v).issued = w.issued := rfl

@[simp] theorem World.del_issued (w : World) (c : CacheName) (k : String) :
    (w.del c k).issued = w.issued := rfl

theorem World.put_cache (w : World) (c c' : CacheName) (k k' : String) (v : CacheVal) :
    (w.put c k v).cache c' k' = if c' = c ∧ k' = k then some v else w.cache c' k' := rfl

theorem World.del_cache (w : World) (c c' : CacheName) (k k' : String) :
    (w.del c k).cache c' k' = if c' = c ∧ k' = k then none else w.cache c' k' := rfl

theorem runWrite_iff {w₁ : World} :
    (∃ c, runWrite w w₁ c = some (x, w')) ↔
      (x = .ok () ∧ w' = w₁) ∨ ∃ e, x = .error e ∧ (w' = w ∨ w' = w₁) := by
  constructor
  · rintro ⟨c, hc⟩
    cases c with
    | ok => cases hc; exact .inl ⟨rfl, rfl⟩
    | fail e applied =>
        cases hc
        refine .inr ⟨e, rfl, ?_⟩
        cases applied <;> simp
    | _ => cases hc
  · rintro (⟨rfl, rfl⟩ | ⟨e, rfl, rfl | rfl⟩)
    · exact ⟨.ok, rfl⟩
    · exact ⟨.fail e false, rfl⟩
    · exact ⟨.fail e true, rfl⟩

theorem sem_now {x : Int} : sem .now w x w' ↔ w.clock ≤ x ∧ w' = { w with clock := x } := by
  constructor
  · rintro ⟨c, hc⟩
    cases c with
    | time ms =>
        simp only [Op.run] at hc
        split at hc
        · next h => cases hc; exact ⟨h, rfl⟩
        · cases hc
    | _ => cases hc
  · rintro ⟨h, rfl⟩
    exact ⟨.time x, by simp [Op.run, h]⟩

theorem sem_getRand {n : ℕ} {x : String} :
    sem (.getRand n) w x w' ↔ x ∉ w.issued ∧ x.toList.length = n ∧ x.toList.all isAlnum ∧
      w' = { w with issued := x :: w.issued } := by
  constructor
  · rintro ⟨c, hc⟩
    cases c with
    | rand s =>
        simp only [Op.run] at hc
        split at hc
        · next h => cases hc; exact ⟨h.1, h.2.1, h.2.2, rfl⟩
        · cases hc
    | _ => cases hc
  · rintro ⟨h₁, h₂, h₃, rfl⟩
    refine ⟨.rand x, ?_⟩
    rw [Op.run, if_pos ⟨h₁, h₂, h₃⟩]

theorem sem_select {t : Table} {p : Row t → Bool} {x : Except ErrorResponse (List (Row t))} :
    sem (.select t p) w x w' ↔
      w' = w ∧ (x = .ok ((w.db t).filter p) ∨ ∃ e, x = .error e) := by
  constructor
  · rintro ⟨c, hc⟩
    cases c with
    | ok => cases hc; exact ⟨rfl, .inl rfl⟩
    | fail e _ => cases hc; exact ⟨rfl, .inr ⟨e, rfl⟩⟩
    | _ => cases hc
  · rintro ⟨rfl, rfl | ⟨e, rfl⟩⟩
    · exact ⟨.ok, rfl⟩
    · exact ⟨.fail e false, rfl⟩

theorem sem_execute {ss : List DbWrite} :
    sem (.execute ss) w x w' ↔
      (∃ e, x = .error e ∧ w' = w) ∨
      ∃ db, Commits ss w.db db ∧ w' = { w with db } := by
  constructor
  · rintro ⟨c, hc⟩
    simp only [Op.run] at hc
    split at hc
    · next db hdb =>
        rcases runWrite_iff.mp ⟨c, hc⟩ with ⟨-, rfl⟩ | ⟨e, rfl, rfl | rfl⟩
        · exact .inr ⟨db, commit_eq_some.mp hdb, rfl⟩
        · exact .inl ⟨e, rfl, rfl⟩
        · exact .inr ⟨db, commit_eq_some.mp hdb, rfl⟩
    · cases c with
      | fail e _ => cases hc; exact .inl ⟨e, rfl, rfl⟩
      | _ => cases hc
  · rintro (⟨e, rfl, rfl⟩ | ⟨db, hdb, rfl⟩)
    · refine ⟨.fail e false, ?_⟩
      simp only [Op.run]
      split <;> rfl
    · replace hdb := commit_eq_some.mpr hdb
      cases x with
      | ok u => exact ⟨.ok, by simp only [Op.run, hdb]; rfl⟩
      | error e => exact ⟨.fail e true, by simp only [Op.run, hdb]; rfl⟩

theorem sem_execute_ok {ss : List DbWrite} :
    sem (.execute ss) w (.ok ()) w' ↔
      ∃ db, Commits ss w.db db ∧ w' = { w with db } := by
  simp [sem_execute]

theorem sem_cacheGet {x : Except ErrorResponse (Option CacheVal)} :
    sem (.cacheGet c k) w x w' ↔
      (x = .ok (w.cache c k) ∧ w' = w) ∨ (x = .ok none ∧ w' = w.del c k) ∨
      ∃ e, x = .error e ∧ w' = w := by
  constructor
  · rintro ⟨ch, hc⟩
    cases ch with
    | ok => cases hc; exact .inl ⟨rfl, rfl⟩
    | miss => cases hc; exact .inr (.inl ⟨rfl, rfl⟩)
    | fail e _ => cases hc; exact .inr (.inr ⟨e, rfl, rfl⟩)
    | _ => cases hc
  · rintro (⟨rfl, rfl⟩ | ⟨rfl, rfl⟩ | ⟨e, rfl, rfl⟩)
    · exact ⟨.ok, rfl⟩
    · exact ⟨.miss, rfl⟩
    · exact ⟨.fail e false, rfl⟩

theorem sem_cachePut {v : CacheVal} :
    sem (.cachePut c k v) w x w' ↔
      (x = .ok () ∧ w' = w.put c k v) ∨
      ∃ e, x = .error e ∧ (w' = w ∨ w' = w.put c k v) := runWrite_iff

theorem sem_cacheDel :
    sem (.cacheDel c k) w x w' ↔
      (x = .ok () ∧ w' = w.del c k) ∨
      ∃ e, x = .error e ∧ (w' = w ∨ w' = w.del c k) := runWrite_iff

end Sem

end Rauthy
