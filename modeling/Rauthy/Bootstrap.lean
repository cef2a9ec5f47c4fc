/-
Rauthy/Bootstrap.lean

The first start of a production deployment (`migrate_init_prod`,
`rauthy-models/src/migration/db_migrate.rs`).  It takes many statements and no transaction: the rows
for development are deleted, the admin gets its password, an API key may be created, and last one
key pair for each algorithm is saved.  A start that finds a key pair takes all of this for done.

Main result: `init_interrupted`.  A deployment can be started again as often as it takes until the
API key or the first key pair is there.  After the one no start succeeds any more, and after the
other none adds anything.
-/
import Mathlib.Logic.Relation
import Rauthy.ApiKeys
import Rauthy.Cleanups
import Rauthy.KeyRotation

namespace Rauthy

open Prog

/-! ### The model -/

/-- The variables `BOOTSTRAP_…` of the environment. -/
structure BootstrapEnv where
  adminEmail : Option String
  adminPasswordArgon2id : Option String
  adminPasswordPlain : Option String
  apiKey : Option String
  apiKeySecret : Option String

structure ApiKeyRequest where
  name : String
  exp : Option Int
  access : List ApiKeyAccess

/-- How an API key is read: base64 of JSON, and its validation. -/
structure BootstrapLib where
  decodeApiKey : String → Except ErrorResponse ApiKeyRequest
  validate : ApiKeyRequest → Bool

section Bootstrap

variable (data : AppState) (lib : BootstrapLib) (env : BootstrapEnv)

/-- The cleanup of what is for development only -/
def deleteInitRows : M ErrorResponse Unit := do
  execute (Client.deleteStmts "init_client")
  let initUser (u : User) : Bool :=
    u.email == "init_admin@localhost.de" || u.email == "test_admin@localhost.de"
  let users ← select .users initUser
  execute (.delete .users initUser :: User.cascade fun id => users.any fun u => u.id == id)

/-- The password for the admin, as given or at random -/
def bootstrapPlain : M ErrorResponse String :=
  match env.adminPasswordPlain with
  | some plain => return plain
  | none => getRand 24

/-- Its hash, which may be given as well -/
def bootstrapPassword : M ErrorResponse String :=
  match env.adminPasswordArgon2id with
  | some hash => return hash
  | none => do
      let plain ← bootstrapPlain env
      let hash ← attempt (call (.hashPassword plain) answer)
      unwrap "Error hashing the Password" hash.toOption

def bootstrapAdmin : M ErrorResponse Unit := do
  deleteInitRows
  let hash ← bootstrapPassword env
  let email := env.adminEmail.getD "admin@localhost.de"
  execute [.update .users (fun u => u.email == "admin@localhost.de")
    fun u => { u with email, password := some hash }]

def bootstrapSecret (name : String) : M ErrorResponse Unit :=
  match env.apiKeySecret with
  | none => return ()
  | some secretPlain => do
      unwrap "assertion failed: secret_plain.len() >= 64"
        (if secretPlain.utf8ByteSize ≥ 64 then some () else none)
      let secret ← answer (data.encrypt (data.sha256 (Text.asBytes secretPlain)))
      execute [.update .apiKeys (fun k => k.name == name) fun k => { k with secret }]

def bootstrapApiKey : M ErrorResponse Unit :=
  match env.apiKey with
  | none => return ()
  | some raw => do
      let req ← answer (lib.decodeApiKey raw)
      unwrap "Invalid API Key in BOOTSTRAP_API_KEY" (if lib.validate req then some () else none)
      let _ ← ApiKeyEntity.create data req.name req.exp req.access
      bootstrapSecret data env req.name

/-- One of the key pairs, with what the library has generated -/
def newJwk (alg : JwkKeyPairAlg) (der : Except ErrorResponse Bytes) : M ErrorResponse Jwk := do
  let bytes ← answer der
  let kid ← getRand 24
  let jwk ← answer (data.encrypt bytes)
  let now ← unixTimestamp
  return { kid, createdAt := now, signature := alg, encKeyId := data.encKeyActive, jwk }

/-- `Jwk::save` -/
def saveJwk (jwk : Jwk) : M ErrorResponse Unit := execute [.insert .jwks jwk]

def bootstrapJwks (gen : JwkKeyPairAlg → Except ErrorResponse Bytes) : M ErrorResponse Unit := do
  let rs256 ← newJwk data .rs256 (gen .rs256)
  let rs384 ← newJwk data .rs384 (gen .rs384)
  let rs512 ← newJwk data .rs512 (gen .rs512)
  let edDSA ← newJwk data .edDSA (gen .edDSA)
  forEach saveJwk [rs256, rs384, rs512, edDSA]

/-- `migrate_init_prod` -/
def migrateInitProd (gen : JwkKeyPairAlg → Except ErrorResponse Bytes) : M ErrorResponse Unit := do
  let jwks ← select .jwks fun _ => true
  if jwks.isEmpty then do
    bootstrapAdmin env
    bootstrapApiKey data lib env
    bootstrapJwks data gen
  else return ()

/-- A start of the deployment, which stops at an error.  One that is killed leaves the tables as an
error of its next statement does. -/
def Started (w w' : World) : Prop :=
  ∃ gen r, Exec sem (migrateInitProd data lib env gen) w r w'

/-- The algorithms, in the order in which their key pairs are saved. -/
def initAlgs : List JwkKeyPairAlg := [.rs256, .rs384, .rs512, .edDSA]

/-- An API key with this name. -/
def HasApiKey (name : String) (db : Db) : Prop := ∃ k ∈ db .apiKeys, k.name = name

/-- There is an API key of the name that is to be bootstrapped. -/
def ApiKeyTaken (w : World) : Prop :=
  ∃ raw req, env.apiKey = some raw ∧ lib.decodeApiKey raw = .ok req ∧
    HasApiKey req.name w.db

/-- Nobody has the address of the admin any more. -/
def AdminRenamed (w : World) : Prop := ∀ u ∈ w.db .users, u.email ≠ "admin@localhost.de"

variable {data lib env} {w w' : World}
  {name : String}
  {der : Except ErrorResponse Bytes} {gen : JwkKeyPairAlg → Except ErrorResponse Bytes}

/-! ### The admin -/

/-- The tables of the users and the clients, and those that refer to them. -/
def adminTables : List Table :=
  [.clients, .clientsDyn, .users, .usersValues, .userAttrValues, .recentPasswords, .magicLinks,
    .sessions, .passkeys, .refreshTokens, .refreshTokensDevices, .devices]

theorem outcomes_deleteInitRows :
    Outcomes sem deleteInitRows w fun _ w' => ∀ u ∈ w'.db .users, u ∈ w.db .users := by
  have htouches : Touches Client.deleteTables [] (execute (Client.deleteStmts "init_client")) :=
    touches_execute fun s hs => Client.deleteStmts_table hs
  refine outcomes_bind (outcomes_mono (outcomes_frame htouches) fun r w₁ hframe => ?_)
  have husers : w₁.db .users = w.db .users := hframe.db .users (by decide)
  rw [← husers]
  rcases r with e | u
  · exact fun u hu => hu
  refine outcomes_bind (outcomes_select ?_ fun e u hu => hu)
  apply outcomes_executeAll
  · exact fun e u hu => hu
  · intro r db hdb u hu
    obtain ⟨db₁, hdel, hrest⟩ := Option.bind_eq_some_iff.mp hdb
    cases hdel
    have hlast := applyAll_frame hrest (t := .users) (by simp [DbWrite.table, User.cascade])
    change u ∈ db .users at hu
    rw [hlast, Function.update_self] at hu
    exact (List.mem_filter.mp hu).1

theorem touches_deleteInitRows : Touches adminTables [] deleteInitRows := by
  apply touches_bind
  · exact touches_execute (by simp [Client.deleteStmts, DbWrite.table, adminTables])
  intro _
  apply touches_bind (touches_select _ _)
  intro _
  exact touches_execute (by simp [DbWrite.table, adminTables, User.cascade])

theorem touches_bootstrapPassword : Touches [] [] (bootstrapPassword env) := by
  rw [bootstrapPassword]
  cases env.adminPasswordArgon2id with
  | some hash => exact touches_ret _
  | none =>
      have hplain : Touches [] [] (bootstrapPlain env) := by
        rw [bootstrapPlain]
        cases env.adminPasswordPlain with
        | some plain => exact touches_ret _
        | none => exact touches_getRand 24
      apply touches_bind hplain
      intro plain
      have hhash : Touches [] [] (call (.hashPassword plain) answer : M ErrorResponse String) :=
        ⟨trivial, fun hash => touches_answer hash⟩
      apply touches_bind (touches_attempt hhash)
      intro hash
      exact touches_unwrap _ _

/-- The statement that sets the password finds nobody without the address. -/
theorem outcomes_bootstrapAdmin :
    Outcomes sem (bootstrapAdmin env) w fun _ w' =>
      (∀ t, t ∉ adminTables → w'.db t = w.db t) ∧
        (AdminRenamed w → ∀ u ∈ w'.db .users, u ∈ w.db .users) := by
  refine outcomes_bind fun r w₁ hx => ?_
  have hframe := touches_deleteInitRows.frame hx
  have hless := outcomes_deleteInitRows r w₁ hx
  rcases r with e | u
  · exact ⟨hframe.db, fun _ => hless⟩
  refine outcomes_bind (outcomes_mono (outcomes_frame touches_bootstrapPassword)
    fun r w₂ hpassword => ?_)
  have hdb : w₂.db = w₁.db := funext fun t => hpassword.db t List.not_mem_nil
  rcases r with e | hash
  · rw [hdb]
    exact ⟨hframe.db, fun _ => hless⟩
  apply outcomes_executeAll
  · intro e
    rw [hdb]
    exact ⟨hframe.db, fun _ => hless⟩
  · intro r db happly
    rw [hdb] at happly
    cases happly
    constructor
    · intro t ht
      have hne : t ≠ .users := by
        rintro rfl
        exact ht (by simp [adminTables])
      show Function.update w₁.db .users _ t = w.db t
      rw [Function.update_of_ne hne]
      exact hframe.db t ht
    · intro hrenamed u hu
      obtain ⟨u₀, hu₀, rfl⟩ : ∃ u₀ ∈ w₁.db .users, _ = u := by
        simpa using hu
      rw [if_neg (by simpa using hrenamed u₀ (hless u₀ hu₀))]
      exact hless u₀ hu₀

/-! ### The API key -/

theorem hasApiKey_insert {k : ApiKeyEntity} {db db' : Db}
    (h : applyAll [.insert .apiKeys k] db = some db') :
    (∀ t, t ≠ .apiKeys → db' t = db t) ∧ (∀ n, HasApiKey n db → HasApiKey n db') ∧
      ¬ HasApiKey k.name db := by
  obtain ⟨hfree, rfl⟩ := applyAll_insert h
  refine ⟨fun t ht => Function.update_of_ne ht _ _, ?_, ?_⟩
  · rintro n ⟨k', hk', hname⟩
    refine ⟨k', ?_, hname⟩
    rw [Function.update_self]
    exact List.mem_append_left _ hk'
  · rintro ⟨k', hk', hname⟩
    have hsame : (k.name == k'.name) = false := hfree k' hk'
    rw [hname, beq_self_eq_true] at hsame
    cases hsame

/-- An API key is created only if there is none of its name. -/
theorem outcomes_createApiKey {exp : Option Int} {access : List ApiKeyAccess} :
    Outcomes sem (ApiKeyEntity.create data name exp access) w fun r w' =>
      (∀ t, t ≠ .apiKeys → w'.db t = w.db t) ∧ (∀ n, HasApiKey n w.db → HasApiKey n w'.db) ∧
        (r.isOk → ¬ HasApiKey name w.db) := by
  have hsame : ∀ e : Fault ErrorResponse, (∀ t, t ≠ .apiKeys → w.db t = w.db t) ∧
      (∀ n, HasApiKey n w.db → HasApiKey n w.db) ∧
        ((Except.error e : Except _ String).isOk → ¬ HasApiKey name w.db) :=
    fun e => ⟨fun _ _ => rfl, fun _ => id, fun h => by cases h⟩
  refine outcomes_bind (outcomes_unixTimestamp fun ms hms => ?_)
  refine outcomes_bind (outcomes_call fun secret w₁ hrand => outcomes_ret ?_)
  obtain ⟨-, -, -, rfl⟩ := sem_getRand.mp hrand
  refine outcomes_bind (outcomes_answer (fun enc _ => ?_) fun _ _ => hsame _)
  refine outcomes_bind (outcomes_answer (fun accessEnc _ => ?_) fun _ _ => hsame _)
  refine outcomes_bind (outcomes_executeAll (fun _ => hsame _) fun r db hdb => ?_)
  obtain ⟨hrows, hkeep, hfree⟩ := hasApiKey_insert hdb
  rcases r with e | u
  · exact ⟨hrows, hkeep, fun h => by cases h⟩
  · exact outcomes_ret ⟨hrows, hkeep, fun _ => hfree⟩

theorem touches_bootstrapSecret :
    Touches [.apiKeys] [] (bootstrapSecret data env name) := by
  rw [bootstrapSecret]
  cases env.apiKeySecret with
  | none => exact touches_ret _
  | some plain =>
      apply touches_bind (touches_unwrap _ _)
      intro _
      apply touches_bind (touches_answer _)
      intro secret
      exact touches_execute (by simp [DbWrite.table])

theorem outcomes_bootstrapSecret :
    Outcomes sem (bootstrapSecret data env name) w fun _ w' =>
      ∀ n, HasApiKey n w.db → HasApiKey n w'.db := by
  rw [bootstrapSecret]
  cases env.apiKeySecret with
  | none => exact outcomes_ret fun _ => id
  | some plain =>
      refine outcomes_bind (outcomes_unwrap (fun _ _ => ?_) fun _ _ => id)
      refine outcomes_bind (outcomes_answer (fun secret _ => ?_) fun _ _ _ => id)
      refine outcomes_executeAll (fun _ _ => id) fun r db hdb => ?_
      cases hdb
      rintro n ⟨k, hk, hname⟩
      refine ⟨_, List.mem_map_of_mem hk, ?_⟩
      split
      · exact hname
      · exact hname

theorem outcomes_bootstrapApiKey :
    Outcomes sem (bootstrapApiKey data lib env) w fun r w' =>
      (∀ t, t ≠ .apiKeys → w'.db t = w.db t) ∧ (∀ n, HasApiKey n w.db → HasApiKey n w'.db) ∧
        (ApiKeyTaken lib env w → r ≠ .ok ()) := by
  rw [bootstrapApiKey]
  cases hraw : env.apiKey with
  | none =>
      apply outcomes_ret
      refine ⟨fun _ _ => rfl, fun _ => id, ?_⟩
      rintro ⟨raw, req, hsome, -⟩
      rw [hraw] at hsome
      cases hsome
  | some raw =>
      refine outcomes_bind (outcomes_answer (fun req hreq => ?_) fun e _ =>
        ⟨fun _ _ => rfl, fun _ => id, by simp⟩)
      refine outcomes_bind (outcomes_unwrap (fun _ _ => ?_) fun _ =>
        ⟨fun _ _ => rfl, fun _ => id, by simp⟩)
      refine outcomes_bind (outcomes_mono outcomes_createApiKey
        fun r w₁ ⟨hrows, hkeep, hfree⟩ => ?_)
      rcases r with e | key
      · exact ⟨hrows, hkeep, by simp⟩
      intro r w₂ hx
      have hframe := touches_bootstrapSecret.frame hx
      refine ⟨fun t ht => ?_, fun n hn => ?_, ?_⟩
      · rw [hframe.db t (by simpa using ht), hrows t ht]
      · exact outcomes_bootstrapSecret r w₂ hx n (hkeep n hn)
      · rintro ⟨raw', req', hsome, hdec, htaken⟩
        rw [hraw] at hsome
        cases hsome
        rw [hreq] at hdec
        cases hdec
        exact absurd htaken (hfree rfl)

/-! ### The key pairs -/

theorem touches_newJwk {alg : JwkKeyPairAlg} :
    Touches [] [] (newJwk data alg der) := by
  apply touches_bind (touches_answer _)
  intro bytes
  apply touches_bind (touches_getRand 24)
  intro kid
  apply touches_bind (touches_answer _)
  intro jwk
  apply touches_bind touches_unixTimestamp
  intro now
  exact touches_ret _

theorem outcomes_newJwk {alg : JwkKeyPairAlg} :
    Outcomes sem (newJwk data alg der) w fun r w' =>
      w'.db = w.db ∧ ∀ k, r = .ok k → k.signature = alg := by
  intro r w' hx
  refine ⟨funext fun t => (touches_newJwk.frame hx).db t List.not_mem_nil, ?_⟩
  rintro k rfl
  obtain ⟨bytes, w₁, -, hx⟩ := exec_bind_ok.mp hx
  obtain ⟨kid, w₂, -, hx⟩ := exec_bind_ok.mp hx
  obtain ⟨jwk, w₃, -, hx⟩ := exec_bind_ok.mp hx
  obtain ⟨now, w₄, -, hk, -⟩ := exec_bind_ok.mp hx
  cases hk
  rfl

/-- Some of the key pairs are saved, and all of them if no error is returned. -/
theorem outcomes_saveJwks (ks : List Jwk) :
    Outcomes sem (forEach saveJwk ks) w fun r w' =>
      (∀ t, t ≠ .jwks → w'.db t = w.db t) ∧ ∃ n ≤ ks.length,
        w'.db .jwks = w.db .jwks ++ ks.take n ∧ (r = .ok () → n = ks.length) := by
  induction ks generalizing w with
  | nil => exact outcomes_ret ⟨fun _ _ => rfl, 0, Nat.le_refl _, by simp, fun _ => rfl⟩
  | cons k ks ih =>
      apply outcomes_bind
      apply outcomes_executeAll
      · exact fun e => ⟨fun _ _ => rfl, 0, Nat.zero_le _, by simp, by simp⟩
      intro r db hdb
      obtain ⟨-, rfl⟩ := applyAll_insert hdb
      have hrows : ∀ t, t ≠ .jwks → Function.update w.db .jwks (w.db .jwks ++ [k]) t = w.db t :=
        fun t ht => Function.update_of_ne ht _ _
      have hjwks : Function.update w.db .jwks (w.db .jwks ++ [k]) .jwks = w.db .jwks ++ [k] :=
        Function.update_self ..
      rcases r with e | u
      · exact ⟨hrows, 1, by simp, hjwks, by simp⟩
      refine outcomes_mono ih fun r w₂ ⟨hrows₂, n, hn, hsaved, hall⟩ => ?_
      refine ⟨fun t ht => (hrows₂ t ht).trans (hrows t ht), n + 1, by simpa using hn, ?_, ?_⟩
      · rw [hsaved]
        show Function.update w.db .jwks (w.db .jwks ++ [k]) .jwks ++ _ = _
        rw [hjwks, List.append_assoc, List.take_succ_cons]
        rfl
      · intro hr
        rw [hall hr, List.length_cons]

/-- The key pairs are generated before the first one is saved. -/
theorem outcomes_bootstrapJwks :
    Outcomes sem (bootstrapJwks data gen) w fun r w' =>
      (∀ t, t ≠ .jwks → w'.db t = w.db t) ∧ ∃ ks : List Jwk, ∃ n ≤ 4,
        w'.db .jwks = w.db .jwks ++ ks ∧ ks.map Jwk.signature = initAlgs.take n ∧
          (r = .ok () → n = 4) := by
  have hnone : ∀ {w₁ : World} {e : Fault ErrorResponse}, w₁.db = w.db →
      (∀ t, t ≠ .jwks → w₁.db t = w.db t) ∧ ∃ ks : List Jwk, ∃ n ≤ 4,
        w₁.db .jwks = w.db .jwks ++ ks ∧ ks.map Jwk.signature = initAlgs.take n ∧
          ((Except.error e : Except _ Unit) = .ok () → n = 4) := by
    intro w₁ e hdb
    rw [hdb]
    exact ⟨fun _ _ => rfl, [], 0, Nat.zero_le _, by simp, rfl, by simp⟩
  refine outcomes_bind (outcomes_mono outcomes_newJwk fun r w₁ ⟨hdb₁, hsig₁⟩ => ?_)
  rcases r with e | k₁
  · exact hnone hdb₁
  refine outcomes_bind (outcomes_mono outcomes_newJwk fun r w₂ ⟨hdb₂, hsig₂⟩ => ?_)
  rw [hdb₁] at hdb₂
  rcases r with e | k₂
  · exact hnone hdb₂
  refine outcomes_bind (outcomes_mono outcomes_newJwk fun r w₃ ⟨hdb₃, hsig₃⟩ => ?_)
  rw [hdb₂] at hdb₃
  rcases r with e | k₃
  · exact hnone hdb₃
  refine outcomes_bind (outcomes_mono outcomes_newJwk fun r w₄ ⟨hdb₄, hsig₄⟩ => ?_)
  rw [hdb₃] at hdb₄
  rcases r with e | k₄
  · exact hnone hdb₄
  have hsigs : [k₁, k₂, k₃, k₄].map Jwk.signature = initAlgs := by
    simp [initAlgs, hsig₁ k₁ rfl, hsig₂ k₂ rfl, hsig₃ k₃ rfl, hsig₄ k₄ rfl]
  refine outcomes_mono (outcomes_saveJwks _) fun r w₅ ⟨hrows, n, hn, hsaved, hall⟩ => ?_
  rw [hdb₄] at hrows hsaved
  refine ⟨hrows, _, n, hn, hsaved, ?_, hall⟩
  rw [← hsigs, List.map_take]

/-! ### Starting again -/

/-- What a start does to the tables. -/
structure StartEffect (data : AppState) (lib : BootstrapLib) (env : BootstrapEnv) (w : World)
    (r : Except (Fault ErrorResponse) Unit) (w' : World) : Prop where
  done : w.db .jwks ≠ [] → w'.db = w.db
  algs : w.db .jwks = [] → ∃ n ≤ 4, (w'.db .jwks).map Jwk.signature = initAlgs.take n ∧
    (r = .ok () → n = 4)
  apiKeys : ∀ n, HasApiKey n w.db → HasApiKey n w'.db
  taken : w.db .jwks = [] → ApiKeyTaken lib env w → r ≠ .ok () ∧ w'.db .jwks = []
  renamed : AdminRenamed w → ∀ u ∈ w'.db .users, u ∈ w.db .users

theorem outcomes_migrateInitProd :
    Outcomes sem (migrateInitProd data lib env gen) w (StartEffect data lib env w) := by
  have hfailed : ∀ {w₁ : World} {e : Fault ErrorResponse},
      (∀ t, t ∉ adminTables → t ≠ .apiKeys → w₁.db t = w.db t) → w.db .jwks = [] →
      (∀ n, HasApiKey n w.db → HasApiKey n w₁.db) →
      (AdminRenamed w → ∀ u ∈ w₁.db .users, u ∈ w.db .users) →
      StartEffect data lib env w (.error e) w₁ := by
    intro w₁ e hrows hnone hkeys hrenamed
    have hjwks : w₁.db .jwks = [] := by
      rw [hrows .jwks (by decide) (by decide), hnone]
    refine ⟨fun h => absurd hnone h, fun _ => ⟨0, Nat.zero_le _, ?_, by simp⟩, hkeys,
      fun _ _ => ⟨by simp, hjwks⟩, hrenamed⟩
    rw [hjwks]
    rfl
  have hsame : ∀ r : Except (Fault ErrorResponse) Unit, (w.db .jwks = [] → ∃ e, r = .error e) →
      StartEffect data lib env w r w := by
    intro r hr
    refine ⟨fun _ => rfl, fun hnone => ⟨0, Nat.zero_le _, by simp [hnone], ?_⟩, fun _ => id,
      fun hnone _ => ⟨?_, hnone⟩, fun _ _ => id⟩
    · obtain ⟨e, rfl⟩ := hr hnone
      simp
    · obtain ⟨e, rfl⟩ := hr hnone
      simp
  refine outcomes_bind (outcomes_select ?_ fun e => hsame _ fun _ => ⟨_, rfl⟩)
  rw [List.filter_true]
  by_cases hnone : w.db .jwks = []
  swap
  · show Outcomes sem (if (w.db .jwks).isEmpty then _ else _) w _
    rw [if_neg (by simpa using hnone)]
    exact outcomes_ret (hsame _ fun h => absurd h hnone)
  show Outcomes sem (if (w.db .jwks).isEmpty then _ else _) w _
  rw [if_pos (by simpa using hnone)]
  refine outcomes_bind (outcomes_mono outcomes_bootstrapAdmin fun r w₁ ⟨hadmin, hrenamed⟩ => ?_)
  have hkeys₁ : ∀ n, HasApiKey n w.db → HasApiKey n w₁.db := by
    intro n
    rw [HasApiKey, HasApiKey, hadmin .apiKeys (by decide)]
    exact id
  rcases r with e | u
  · exact hfailed (fun t ht _ => hadmin t ht) hnone hkeys₁ hrenamed
  refine outcomes_bind (outcomes_mono outcomes_bootstrapApiKey
    fun r w₂ ⟨hrows, hkeys₂, htaken⟩ => ?_)
  have hkeys : ∀ n, HasApiKey n w.db → HasApiKey n w₂.db := fun n hn => hkeys₂ n (hkeys₁ n hn)
  have hrenamed₂ : AdminRenamed w → ∀ u ∈ w₂.db .users, u ∈ w.db .users := by
    rw [hrows .users (by decide)]
    exact hrenamed
  rcases r with e | u
  · exact hfailed (fun t ht hne => (hrows t hne).trans (hadmin t ht)) hnone hkeys hrenamed₂
  refine outcomes_mono outcomes_bootstrapJwks fun r w₃ ⟨hrest, ks, n, hn, hsaved, hsigs, hall⟩ => ?_
  have hnone₂ : w₂.db .jwks = [] := by
    rw [hrows .jwks (by decide), hadmin .jwks (by decide), hnone]
  rw [hnone₂, List.nil_append] at hsaved
  refine ⟨fun h => absurd hnone h, fun _ => ⟨n, hn, by rw [hsaved, hsigs], hall⟩, ?_, ?_, ?_⟩
  · intro name
    rw [HasApiKey, HasApiKey, hrest .apiKeys (by decide)]
    exact hkeys name
  · rintro - ⟨raw, req, hraw, hreq, k, hk⟩
    rw [← hadmin .apiKeys (by decide)] at hk
    exact absurd rfl (htaken ⟨raw, req, hraw, hreq, k, hk⟩)
  · rw [hrest .users (by decide)]
    exact hrenamed₂

theorem started_effect (h : Started data lib env w w') :
    ∃ r, StartEffect data lib env w r w' := by
  obtain ⟨gen, r, hx⟩ := h
  exact ⟨r, outcomes_migrateInitProd r w' hx⟩

/-- The deployment is started any number of times. -/
def Restarted (data : AppState) (lib : BootstrapLib) (env : BootstrapEnv) : World → World → Prop :=
  Relation.ReflTransGen (Started data lib env)

theorem restarted_done (h : Restarted data lib env w w') (hdone : w.db .jwks ≠ []) :
    w'.db = w.db := by
  induction h with
  | refl => rfl
  | tail _ hstart ih =>
      obtain ⟨r, heffect⟩ := started_effect hstart
      rw [heffect.done (by rwa [ih]), ih]

theorem restarted_algs (h : Restarted data lib env w w') (hnone : w.db .jwks = []) :
    ∃ n ≤ 4, (w'.db .jwks).map Jwk.signature = initAlgs.take n := by
  induction h with
  | refl => exact ⟨0, Nat.zero_le _, by rw [hnone]; rfl⟩
  | @tail w₁ w₂ _ hstart ih =>
      obtain ⟨r, heffect⟩ := started_effect hstart
      by_cases hnone₁ : w₁.db .jwks = []
      · obtain ⟨n, hn, hsigs, -⟩ := heffect.algs hnone₁
        exact ⟨n, hn, hsigs⟩
      · rwa [heffect.done hnone₁]

theorem restarted_taken (h : Restarted data lib env w w') (hnone : w.db .jwks = [])
    (htaken : ApiKeyTaken lib env w) : w'.db .jwks = [] ∧ ApiKeyTaken lib env w' := by
  induction h with
  | refl => exact ⟨hnone, htaken⟩
  | tail _ hstart ih =>
      obtain ⟨hnone₁, htaken₁⟩ := ih
      obtain ⟨r, heffect⟩ := started_effect hstart
      obtain ⟨raw, req, hraw, hreq, hkey⟩ := id htaken₁
      exact ⟨(heffect.taken hnone₁ htaken₁).2, raw, req, hraw, hreq, heffect.apiKeys _ hkey⟩

theorem restarted_renamed (h : Restarted data lib env w w') (hrenamed : AdminRenamed w) :
    ∀ u ∈ w'.db .users, u ∈ w.db .users := by
  induction h with
  | refl => exact fun u => id
  | @tail w₁ w₂ _ hstart ih =>
      obtain ⟨r, heffect⟩ := started_effect hstart
      have hrenamed₁ : AdminRenamed w₁ := fun u hu => hrenamed u (ih u hu)
      exact fun u hu => ih u (heffect.renamed hrenamed₁ u hu)

/-- The key pairs of a deployment that is started again and again are the first of the list, and all
of them after a start without an error.  But the first one that is saved ends the initialization,
the API key of an interrupted start makes all later ones fail, and once the address of the admin
is changed no later start sets the password it announces. -/
theorem init_interrupted {w₀ : World} (hnone : w₀.db .jwks = [])
    (h : Restarted data lib env w₀ w) :
    (∃ n ≤ 4, (w.db .jwks).map Jwk.signature = initAlgs.take n) ∧
      (w.db .jwks = [] → ∀ gen w', Exec sem (migrateInitProd data lib env gen) w (.ok ()) w' →
        (w'.db .jwks).map Jwk.signature = initAlgs) ∧
      (w.db .jwks ≠ [] → ∀ w', Restarted data lib env w w' → w'.db = w.db) ∧
      (w.db .jwks = [] → ApiKeyTaken lib env w → ∀ w', Restarted data lib env w w' →
        ∀ gen r w'', Exec sem (migrateInitProd data lib env gen) w' r w'' → r ≠ .ok ()) ∧
      (AdminRenamed w → ∀ w', Restarted data lib env w w' →
        ∀ u ∈ w'.db .users, u ∈ w.db .users) := by
  refine ⟨restarted_algs h hnone, ?_, ?_, ?_, ?_⟩
  · intro hempty gen w' hx
    obtain ⟨n, -, hsigs, hall⟩ := (outcomes_migrateInitProd _ _ hx).algs hempty
    rw [hsigs, hall rfl]
    rfl
  · exact fun hdone w' hw' => restarted_done hw' hdone
  · intro hempty htaken w' hw' gen r w'' hx
    obtain ⟨hempty', htaken'⟩ := restarted_taken hw' hempty htaken
    exact ((outcomes_migrateInitProd _ _ hx).taken hempty' htaken').1
  · exact fun hrenamed w' hw' => restarted_renamed hw' hrenamed

end Bootstrap

/-- An admin and an API key, given by the environment. -/
def rootEnv : BootstrapEnv where
  adminEmail := some "root@localhost"
  adminPasswordArgon2id := none
  adminPasswordPlain := none
  apiKey := some "eyJuYW1lIjoib3BzIn0="
  apiKeySecret := none

def rootLib : BootstrapLib where
  decodeApiKey _ := .ok { name := "ops", exp := none, access := [] }
  validate _ := true

/-- The database as the migrations leave it. -/
def unusedWorld : World where
  clock := 0
  issued := []
  db
    | .users => [{ sampleUser with id := "admin", email := "admin@localhost.de" }]
    | _ => []
  cache _ _ := none

/-- After a start that could not generate the key pairs. -/
theorem init_interrupted_once :
    ∃ w, Restarted sampleState rootLib rootEnv unusedWorld w ∧
      (∃ u ∈ w.db .users, u.password = some "first") ∧
      ∀ w', Restarted sampleState rootLib rootEnv w w' →
        (∀ u ∈ w'.db .users, u ∈ w.db .users) ∧ ∀ gen r w'',
          Exec sem (migrateInitProd sampleState rootLib rootEnv gen) w' r w'' → r ≠ .ok () := by
  obtain ⟨r, w, hx, hw⟩ := Pool.exists_exec_of_choices Op.run
    (migrateInitProd sampleState rootLib rootEnv fun _ => .error ⟨.internal, "no entropy"⟩)
    [.ok, .ok, .ok, .ok, .rand (String.ofList (List.replicate 24 'a')), .rand "first", .ok,
      .time 0, .rand (String.ofList (List.replicate 64 'b')), .ok] unusedWorld
    (fun _ w => decide (w.db .jwks = [] ∧ (∃ k ∈ w.db .apiKeys, k.name = "ops") ∧
      (∀ u ∈ w.db .users, u.email ≠ "admin@localhost.de") ∧
        ∃ u ∈ w.db .users, u.password = some "first")) (by decide +kernel)
  obtain ⟨hnone, hkey, hrenamed, hfirst⟩ := of_decide_eq_true hw
  have hstarted : Restarted sampleState rootLib rootEnv unusedWorld w := .single ⟨_, r, hx⟩
  obtain ⟨-, -, -, htaken, hsame⟩ := init_interrupted rfl hstarted
  refine ⟨w, hstarted, hfirst, fun w' hw' => ⟨hsame hrenamed w' hw', ?_⟩⟩
  exact htaken hnone ⟨_, _, rfl, rfl, hkey⟩ w' hw'

end Rauthy
