/-
Rauthy/Encryption.lean

`rauthy-service/src/encryption.rs`: the secrets of clients, API keys and upstream providers are
stored encrypted with the key that was active when they were written, and
`migrate_encryption_alg` moves all of them to another key.  It finds the clients and the API
keys to move by the id of the key that is stored next to the secret.

`update_client` and `generate_new_secret` write new secrets and leave `secret_kid` as it is
(`secret_without_key_id`), and providers whose secret cannot be decrypted are skipped.

Main result: `secrets_keyed`, on histories that do not run into this.
-/
import Rauthy.ApiKeys
import Rauthy.AuthProviders
import Rauthy.KeyRotation
import Rauthy.Lib.Rows

namespace Rauthy

open Prog

/-! ### The migration -/

def migrateClient (data : AppState) (newKid : String) (client : Client) : M ErrorResponse Unit :=
  if client.confidential = false then return ()
  else do
    let secret ← unwrap "called `Option::unwrap()` on a `None` value" client.secret
    let dec ← answer (data.decrypt secret)
    let enc ← answer (data.encryptWithKeyId newKid dec)
    Client.save { client with secret := some enc, secretKid := some newKid }

def migrateApiKey (data : AppState) (newKid : String) (apiKey : ApiKeyEntity) :
    M ErrorResponse Unit := do
  let dec ← answer (data.decrypt apiKey.secret)
  let secret ← answer (data.encryptWithKeyId newKid dec)
  let dec ← answer (data.decrypt apiKey.access)
  let access ← answer (data.encryptWithKeyId newKid dec)
  ApiKeyEntity.save { apiKey with secret, access, encKeyId := newKid }

/-- A secret that cannot be decrypted is only logged. -/
def migrateProvider (data : AppState) (newKid : String) (provider : AuthProvider) :
    M ErrorResponse Unit :=
  match AuthProvider.getSecretCleartext data provider.secret with
  | .ok (some plaintext) => do
      let secret ← answer (data.encryptWithKeyId newKid (Text.asBytes plaintext))
      AuthProvider.save data { provider with secret := some secret }
  | .ok none => return ()
  | .error _ => return ()

/-- `migrate_encryption_alg`, with the key pairs that are generated for the new JWKs -/
def migrateEncryptionAlg (data : AppState) (newKid : String)
    (gen : JwkKeyPairAlg → Except ErrorResponse Bytes) : M ErrorResponse Unit := do
  answer (data.getStaticKey newKid)
  let clients ← Client.findAll
  forEach (migrateClient data newKid) (clients.filter fun c => decide (c.secretKid ≠ some newKid))
  rotateJwks data gen
  let apiKeys ← ApiKeyEntity.findAll
  forEach (migrateApiKey data newKid) (apiKeys.filter fun k => decide (k.encKeyId ≠ newKid))
  let providers ← AuthProvider.findAll
  forEach (migrateProvider data newKid) providers

/-! ### The operations -/

inductive SecretOp where
  | createClient (req : NewClientRequest)
  | updateClient (id : String) (req : UpdateClientRequest)
  | generateNewSecret (id : String)
  | deleteClient (id : String)
  | createDynamic (req : DynamicClientRequest)
  | updateDynamic (req : DynamicClientRequest) (clientDyn : ClientDyn)
  | createApiKey (name : String) (expires : Option Int) (access : List ApiKeyAccess)
  | generateSecret (name : String)
  | updateApiKey (name : String) (expires : Option Int) (access : List ApiKeyAccess)
  | deleteApiKey (name : String)
  | createProvider (payload : ProviderRequest)
  | updateProvider (id : String) (payload : ProviderRequest)
  | deleteProvider (id : String)
  | migrate (newKid : String) (gen : JwkKeyPairAlg → Except ErrorResponse Bytes)

def SecretOp.prog (data : AppState) : SecretOp → M ErrorResponse Unit
  | createClient req => do let _ ← Client.create data req
  | updateClient id req => do let _ ← Rauthy.updateClient data id req
  | generateNewSecret id => do let _ ← Rauthy.generateNewSecret data id
  | deleteClient id => Rauthy.deleteClient id
  | createDynamic req => do let _ ← Client.createDynamic data req
  | updateDynamic req clientDyn => do let _ ← Client.updateDynamic data req clientDyn
  | createApiKey name expires access => do let _ ← ApiKeyEntity.create data name expires access
  | generateSecret name => do let _ ← ApiKeyEntity.generateSecret data name
  | updateApiKey name expires access => ApiKeyEntity.update data name expires access
  | deleteApiKey name => ApiKeyEntity.delete name
  | createProvider payload => do let _ ← AuthProvider.create data payload
  | updateProvider id payload => AuthProvider.update data id payload
  | deleteProvider id => AuthProvider.delete data id
  | migrate newKid gen => migrateEncryptionAlg data newKid gen

/-! ### Keys of secrets

An encrypted value names its key, and holds what was encrypted: `keyId` and `plain` read this
off the value, whatever keys a process has. -/

/-- What the encryption is relied on, whichever key is the active one. -/
structure Encrypts (keyId : Bytes → Option String) (plain : Bytes → Option Bytes)
    (data : AppState) : Prop where
  encrypt : ∀ b c, data.encrypt b = .ok c → keyId c = some data.encKeyActive ∧ plain c = some b
  encryptWithKeyId : ∀ kid b c, data.encryptWithKeyId kid b = .ok c →
    keyId c = some kid ∧ plain c = some b
  decrypt : ∀ c b, data.decrypt c = .ok b → plain c = some b
  utf8 : ∀ s, data.fromUtf8Lossy (Text.asBytes s) = s

section Keys

variable (keyId : Bytes → Option String) (plain : Bytes → Option Bytes)

/-- A confidential client names the key of its secret, and a public one has none. -/
def Client.Keyed (c : Client) : Prop :=
  (c.confidential = true → ∃ s kid, c.secret = some s ∧ c.secretKid = some kid ∧ keyId s = some kid) ∧
  (c.confidential = false → c.secret = none)

def ApiKeyEntity.Keyed (k : ApiKeyEntity) : Prop :=
  keyId k.secret = some k.encKeyId ∧ keyId k.access = some k.encKeyId

/-- The client can be found: as a row, or in the cache. -/
def StoredClient (w : World) (c : Client) : Prop :=
  c ∈ w.db .clients ∨ ∃ k, w.cache .c12hr (Client.getCacheEntry k) = some (.client c)

/-- The secret of every client and of every API key is stored with the id of its key; with what
else the operations need: unique keys of the rows, the list of the providers in the cache, and
that their secrets are texts. -/
structure SecretsOk (w : World) : Prop where
  clients : ∀ c, StoredClient w c → c.Keyed keyId
  apiKeys : ∀ k ∈ w.db .apiKeys, k.Keyed keyId
  texts : ∀ p ∈ w.db .authProviders, ∀ s, p.secret = some s → ∃ t, plain s = some (Text.asBytes t)
  all : ∀ l, w.cache .c12hr (AuthProvider.cacheIdx "all") = some (.authProviders l) →
    l = w.db .authProviders
  clientIds : UniqueKey Client.id (w.db .clients)
  apiKeyNames : UniqueKey ApiKeyEntity.name (w.db .apiKeys)
  providerIds : UniqueKey AuthProvider.id (w.db .authProviders)

/-- The secret is encrypted with the key `kid` now, and its plaintext is the same. -/
def Resealed (kid : String) : Option Bytes → Option Bytes → Prop
  | some s, some s' => keyId s' = some kid ∧ plain s' = plain s
  | none, none => True
  | _, _ => False

/-- Both values of an API key. -/
def ResealedKey (kid : String) (k k' : ApiKeyEntity) : Prop :=
  Resealed keyId plain kid (some k.secret) (some k'.secret) ∧
  Resealed keyId plain kid (some k.access) (some k'.access)

/-- Every secret is encrypted with the key `kid` after the migration. -/
structure Migrated (kid : String) (w w' : World) : Prop where
  clients : Rowwise Client.id (fun c c' => Resealed keyId plain kid c.secret c'.secret)
    (w.db .clients) (w'.db .clients)
  apiKeys : Rowwise ApiKeyEntity.name (ResealedKey keyId plain kid) (w.db .apiKeys) (w'.db .apiKeys)
  providers : Rowwise AuthProvider.id (fun p p' => Resealed keyId plain kid p.secret p'.secret)
    (w.db .authProviders) (w'.db .authProviders)

end Keys

/-- `Client::find` can answer with the client. -/
def FoundClient (w : World) (id : String) (c : Client) : Prop :=
  w.cache .c12hr (Client.getCacheEntry id) = some (.client c) ∨ c ∈ w.db .clients ∧ c.id = id

/-- The operation keeps `secret_kid` and the secrets in step. -/
def SecretOp.Clean (data : AppState) (w : World) : SecretOp → Prop
  | updateClient id req => ∀ c, FoundClient w id c → req.confidential = true →
      c.confidential = false → c.secretKid = some data.encKeyActive
  | generateNewSecret id => ∀ c, FoundClient w id c → c.secretKid = some data.encKeyActive
  | migrate _ _ => ∀ p ∈ w.db .authProviders, ∀ s, p.secret = some s →
      ∃ b, data.decrypt s = .ok b
  | _ => True

/-- The world after operations that all satisfy `C`.  Each one runs under the configuration of
its time: another key may be the active one after a restart. -/
inductive SecretHistory (keyId : Bytes → Option String) (plain : Bytes → Option Bytes)
    (C : AppState → World → SecretOp → Prop) : World → Prop
  | start {w : World} (h : SecretsOk keyId plain w) : SecretHistory keyId plain C w
  | step {data : AppState} {w w' : World} {o : SecretOp} {r : Except (Fault ErrorResponse) Unit}
      (h : SecretHistory keyId plain C w) (hdata : Encrypts keyId plain data) (hC : C data w o)
      (hx : Exec semUp (o.prog data) w r w') : SecretHistory keyId plain C w'

/-! ### What keeps the invariant -/

section Keep

variable {keyId : Bytes → Option String} {plain : Bytes → Option Bytes} {data : AppState}
  {w w' : World}
  {c : Client} {k id kid : String} {db : Db} {p : AuthProvider}
  {cs : List (CacheName × Slot)} {gen : JwkKeyPairAlg → Except ErrorResponse Bytes}

theorem SecretsOk.frame {ts : List Table} (h : SecretsOk keyId plain w) (hf : Frame ts cs w w')
    (hclients : Table.clients ∉ ts) (hkeys : Table.apiKeys ∉ ts)
    (hproviders : Table.authProviders ∉ ts) (hclient : (CacheName.c12hr, Slot.client) ∉ cs)
    (hall : (CacheName.c12hr, Slot.authProviders) ∉ cs) : SecretsOk keyId plain w' := by
  have hc := hf.db .clients hclients
  have hk := hf.db .apiKeys hkeys
  have hp := hf.db .authProviders hproviders
  refine ⟨fun c hc' => h.clients c ?_, hk ▸ h.apiKeys, hp ▸ h.texts, fun l hl => ?_,
    hc ▸ h.clientIds, hk ▸ h.apiKeyNames, hp ▸ h.providerIds⟩
  · rcases hc' with hc' | ⟨k, hk'⟩
    · exact .inl (hc ▸ hc')
    · rcases hf.cache _ _ _ hk' with hold | hnew
      · exact .inr ⟨k, hold⟩
      · exact absurd hnew hclient
  · rw [hp]
    rcases hf.cache _ _ _ hl with hold | hnew
    · exact h.all l hold
    · exact absurd hnew hall

theorem SecretsOk.putClient (h : SecretsOk keyId plain w) (hc : c.Keyed keyId) (k : String) :
    SecretsOk keyId plain (w.put .c12hr (Client.getCacheEntry k) (.client c)) := by
  refine ⟨fun c' hc' => ?_, h.apiKeys, h.texts, fun l hl => ?_, h.clientIds, h.apiKeyNames,
    h.providerIds⟩
  · rcases hc' with hc' | ⟨k', hk'⟩
    · exact h.clients c' (.inl hc')
    · rw [World.put_cache] at hk'
      split at hk'
      · cases hk'
        exact hc
      · exact h.clients c' (.inr ⟨k', hk'⟩)
  · rw [World.put_cache] at hl
    split at hl
    · cases hl
    · exact h.all l hl

theorem SecretsOk.put (h : SecretsOk keyId plain w) {c : CacheName} {v : CacheVal}
    (hv : v.slot ≠ .client ∧ v.slot ≠ .authProviders) : SecretsOk keyId plain (w.put c k v) := by
  have hf : Frame [] [(c, v.slot)] w (w.put c k v) := frame_put w (List.mem_singleton.mpr rfl) k
  refine h.frame hf (by simp) (by simp) (by simp) (fun hm => ?_) fun hm => ?_
  · exact hv.1 (congrArg Prod.snd (List.mem_singleton.mp hm)).symm
  · exact hv.2 (congrArg Prod.snd (List.mem_singleton.mp hm)).symm

theorem SecretsOk.setClients (h : SecretsOk keyId plain w)
    (hrows : ∀ c ∈ db .clients, c.Keyed keyId) (hu : UniqueKey Client.id (db .clients))
    (hk : db .apiKeys = w.db .apiKeys) (hp : db .authProviders = w.db .authProviders) :
    SecretsOk keyId plain { w with db } := by
  refine ⟨fun c hc => ?_, ?_, ?_, fun l hl => ?_, hu, ?_, ?_⟩
  · rcases hc with hc | hc
    · exact hrows c hc
    · exact h.clients c (.inr hc)
  · exact fun k hk' => h.apiKeys k (hk ▸ hk')
  · exact fun p hp' => h.texts p (hp ▸ hp')
  · exact (h.all l hl).trans hp.symm
  · show UniqueKey ApiKeyEntity.name (db .apiKeys)
    exact hk.symm ▸ h.apiKeyNames
  · show UniqueKey AuthProvider.id (db .authProviders)
    exact hp.symm ▸ h.providerIds

theorem SecretsOk.setApiKeys (h : SecretsOk keyId plain w)
    (hrows : ∀ k ∈ db .apiKeys, k.Keyed keyId) (hu : UniqueKey ApiKeyEntity.name (db .apiKeys))
    (hother : ∀ t, t ≠ .apiKeys → db t = w.db t) : SecretsOk keyId plain { w with db } := by
  have hc : db .clients = w.db .clients := hother _ (by decide)
  have hp : db .authProviders = w.db .authProviders := hother _ (by decide)
  refine ⟨fun c hc' => h.clients c ?_, hrows, ?_, fun l hl => ?_, ?_, hu, ?_⟩
  · exact hc'.imp_left fun hc' => hc ▸ hc'
  · exact fun p hp' => h.texts p (hp ▸ hp')
  · exact (h.all l hl).trans hp.symm
  · show UniqueKey Client.id (db .clients)
    exact hc.symm ▸ h.clientIds
  · show UniqueKey AuthProvider.id (db .authProviders)
    exact hp.symm ▸ h.providerIds

/-- New rows of the providers, the list in the cache being gone. -/
theorem SecretsOk.setProviders (h : SecretsOk keyId plain w)
    (hrows : ∀ p ∈ db .authProviders, ∀ s, p.secret = some s → ∃ t, plain s = some (Text.asBytes t))
    (hu : UniqueKey AuthProvider.id (db .authProviders))
    (hother : ∀ t, t ≠ .authProviders → t ≠ .users → db t = w.db t) :
    SecretsOk keyId plain (({ w with db } : World).del .c12hr (AuthProvider.cacheIdx "all")) := by
  have hc : db .clients = w.db .clients := hother _ (by decide) (by decide)
  have hk : db .apiKeys = w.db .apiKeys := hother _ (by decide) (by decide)
  refine ⟨fun c hc' => h.clients c ?_, ?_, hrows, fun l hl => ?_, ?_, ?_, hu⟩
  · rcases hc' with hc' | ⟨k, hk'⟩
    · exact .inl (hc ▸ hc')
    · rw [World.del_cache] at hk'
      split at hk'
      · cases hk'
      · exact .inr ⟨k, hk'⟩
  · exact fun k hk' => h.apiKeys k (hk ▸ hk')
  · rw [World.del_cache, if_pos ⟨rfl, rfl⟩] at hl
    cases hl
  · show UniqueKey Client.id (db .clients)
    exact hc.symm ▸ h.clientIds
  · show UniqueKey ApiKeyEntity.name (db .apiKeys)
    exact hk.symm ▸ h.apiKeyNames

/-- What `cached` keeps. -/
theorem outcomes_cachedInv {α : Type} {I : World → Prop} {c : CacheName} {as : CacheVal → Option α}
    {wrap : α → CacheVal} {load : M ErrorResponse α} (hdel : ∀ w, I w → I (w.del c k))
    (hput : ∀ w a, I w → I (w.put c k (wrap a)))
    (hload : ∀ w, I w → Outcomes semUp load w fun _ w' => I w') (h : I w) :
    Outcomes semUp (cached c k as wrap load) w fun _ w' => I w' := by
  refine outcomes_bind fun r w₁ hx => ?_
  have h₁ : I w₁ := by
    rcases exec_cacheGet_world hx.of_answering with rfl | rfl
    · exact h
    · exact hdel w h
  rcases r with e | - | a
  · exact h₁
  · refine outcomes_bind (outcomes_mono (hload w₁ h₁) fun r w₂ h₂ => ?_)
    rcases r with e | a
    · exact h₂
    · exact outcomes_bind (answered_cachePut (outcomes_ret (hput w₂ a h₂)))
  · exact outcomes_ret h₁

/-! ### Clients -/

theorem SecretsOk.findClient (h : SecretsOk keyId plain w) (id : String) :
    Outcomes semUp (Client.find id) w fun r w' => SecretsOk keyId plain w' ∧ w'.db = w.db ∧
      ∀ c, r = .ok c → FoundClient w id c := by
  refine outcomes_bind fun r w₁ hx => ?_
  have hw₁ := exec_cacheGet_world hx.of_answering
  have h₁ : SecretsOk keyId plain w₁ := by
    rcases hw₁ with rfl | rfl
    · exact h
    · exact h.frame (frame_del [] [] w _ _) (by simp) (by simp) (by simp) (by simp) (by simp)
  have hdb : w₁.db = w.db := by rcases hw₁ with rfl | rfl <;> rfl
  rcases r with e | - | c
  · exact ⟨h₁, hdb, fun c hc => by cases hc⟩
  · refine outcomes_bind (answered_fetchOne (fun c hc => ?_) fun _ => ⟨h₁, hdb, fun c hc => by cases hc⟩)
    obtain ⟨hmem, hid⟩ := List.mem_filter.mp (List.mem_of_head? hc)
    refine outcomes_bind (answered_cachePut (outcomes_ret ⟨?_, hdb, fun c' hc' => ?_⟩))
    · exact h₁.putClient (h₁.clients c (.inl hmem)) _
    · cases hc'
      exact .inr ⟨hdb ▸ hmem, by simpa using hid⟩
  · refine outcomes_ret ⟨h₁, hdb, fun c' hc' => ?_⟩
    cases hc'
    rcases exec_cacheGet.mp hx.of_answering with ⟨hn, -⟩ | ⟨a, v, ha, hv, hv', -⟩
    · cases hn
    · cases ha
      rw [CacheVal.client?_eq_some.mp hv'] at hv
      exact .inl hv

theorem FoundClient.stored (h : FoundClient w id c) : StoredClient w c := by
  rcases h with h | ⟨h, -⟩
  · exact .inr ⟨id, h⟩
  · exact .inl h

theorem saveStmt_clients {db' : Db} (h : c.saveStmt.apply db = some db') :
    db' .clients = replaceRow Client.id c (db .clients) ∧ ∀ t, t ≠ .clients → db' t = db t := by
  refine ⟨?_, fun t ht => DbWrite.apply_frame h (Ne.symm ht)⟩
  simp only [Client.saveStmt, DbWrite.apply, Option.some.injEq] at h
  subst h
  rw [Function.update_self]
  refine List.map_congr_left fun r _ => ?_
  by_cases he : r.id = c.id
  · simp [he]
  · simp [he]

theorem SecretsOk.replaceClient (h : SecretsOk keyId plain w) (hc : c.Keyed keyId)
    (hdb : db .clients = replaceRow Client.id c (w.db .clients))
    (hother : ∀ t, t ≠ .clients → t ≠ .clientsDyn → db t = w.db t) :
    SecretsOk keyId plain { w with db } := by
  refine h.setClients (fun c' hc' => ?_) (hdb ▸ h.clientIds.replaceRow c)
    (hother _ (by decide) (by decide)) (hother _ (by decide) (by decide))
  rw [hdb] at hc'
  rcases mem_replaceRow hc' with rfl | ⟨hc', -⟩
  · exact hc
  · exact h.clients c' (.inl hc')

theorem SecretsOk.saveClient (h : SecretsOk keyId plain w) (hc : c.Keyed keyId) :
    Outcomes semUp c.save w fun r w' => SecretsOk keyId plain w' ∧ r = .ok () ∧
      w'.db .clients = replaceRow Client.id c (w.db .clients) ∧
      ∀ t, t ≠ .clients → w'.db t = w.db t := by
  refine outcomes_bind (answered_execute fun db hdb => ?_)
  obtain ⟨db₁, hsave, hrest⟩ := Option.bind_eq_some_iff.mp hdb
  cases hrest
  obtain ⟨hrows, hother⟩ := saveStmt_clients hsave
  have h₁ := h.replaceClient hc hrows fun t ht _ => hother t ht
  refine outcomes_bind (answered_cachePut (outcomes_bind (answered_select (answered_cachePut ?_))))
  refine ⟨?_, rfl, hrows, hother⟩
  exact (h₁.putClient hc _).put ⟨by simp [CacheVal.slot], by simp [CacheVal.slot]⟩

theorem generateNewSecret_keyed (hdata : Encrypts keyId plain data) :
    Outcomes semUp (Client.generateNewSecret data) w fun r w' => Frame [] [] w w' ∧
      ∀ x, r = .ok x → keyId x.2 = some data.encKeyActive := by
  intro r w' hx
  refine ⟨(Client.generateNewSecret_touches data).frame hx.of_answering, fun x hr => ?_⟩
  rw [hr] at hx
  obtain ⟨rnd, w₁, -, hx⟩ := exec_bind_ok.mp hx
  obtain ⟨enc, w₂, henc, hx⟩ := exec_bind_ok.mp hx
  cases hx.1
  exact (hdata.encrypt _ _ (exec_answer.mp henc).1).1

theorem firstSecret_keyed (hdata : Encrypts keyId plain data) {confidential : Bool} :
    Outcomes semUp (Client.firstSecret data confidential) w fun r w' => Frame [] [] w w' ∧
      ∀ s kid, r = .ok (s, kid) → ∀ c : Client, c.confidential = confidential → c.secret = s →
        c.secretKid = kid → c.Keyed keyId := by
  cases confidential with
  | false =>
      refine outcomes_ret ⟨.refl _ _ _, fun s kid hr c hconf hs hkid => ?_⟩
      cases hr
      refine ⟨fun h => ?_, fun _ => hs⟩
      rw [hconf] at h
      cases h
  | true =>
      refine outcomes_bind (outcomes_mono (generateNewSecret_keyed hdata) fun r w₁ hr => ?_)
      obtain ⟨hf, hkey⟩ := hr
      rcases r with e | ⟨clear, enc⟩
      · exact ⟨hf, fun s kid hr => by cases hr⟩
      · refine outcomes_ret ⟨hf, fun s kid hr c hconf hs hkid => ?_⟩
        cases hr
        refine ⟨fun _ => ⟨enc, _, hs, hkid, hkey _ rfl⟩, fun h => ?_⟩
        rw [hconf] at h
        cases h

theorem SecretsOk.still {ts : List Table} (h : SecretsOk keyId plain w) (hf : Frame ts cs w w')
    (hts : ∀ t ∈ ts, t ≠ .clients ∧ t ≠ .apiKeys ∧ t ≠ .authProviders)
    (hcs : ∀ c ∈ cs, c ≠ (.c12hr, .client) ∧ c ≠ (.c12hr, .authProviders)) :
    SecretsOk keyId plain w' :=
  h.frame hf (fun hm => (hts _ hm).1 rfl) (fun hm => (hts _ hm).2.1 rfl)
    (fun hm => (hts _ hm).2.2 rfl) (fun hm => (hcs _ hm).1 rfl) fun hm => (hcs _ hm).2 rfl

/-- A request that writes nothing but the clock and the random strings. -/
theorem SecretsOk.idle (h : SecretsOk keyId plain w) (hf : Frame [] [] w w') :
    SecretsOk keyId plain w' := h.still hf (by simp) (by simp)

theorem SecretsOk.del (h : SecretsOk keyId plain w) (c : CacheName) (k : String) :
    SecretsOk keyId plain (w.del c k) := h.idle (frame_del [] [] w c k)

theorem SecretsOk.getRand (h : SecretsOk keyId plain w) {n : ℕ} {r : Except (Fault ErrorResponse) String}
    (hx : Exec semUp (getRand n) w r w') : SecretsOk keyId plain w' := by
  have hf : Frame [] [] w w' := (touches_getRand n).frame hx.of_answering
  exact h.idle hf

theorem SecretsOk.insertClient (h : SecretsOk keyId plain w) (hc : c.Keyed keyId)
    {rest : List DbWrite} (hrest : ∀ s ∈ rest, s.table = .clientsDyn)
    (hdb : applyAll (.insert .clients c :: rest) w.db = some db) :
    SecretsOk keyId plain { w with db } := by
  obtain ⟨db₁, hins, hdb⟩ := Option.bind_eq_some_iff.mp hdb
  have hrows : db .clients = db₁ .clients :=
    applyAll_frame hdb fun s hs => by rw [hrest s hs]; decide
  have hother : ∀ t, t ≠ .clients → t ≠ .clientsDyn → db t = w.db t := by
    intro t ht htd
    rw [applyAll_frame hdb fun s hs => by rw [hrest s hs]; exact Ne.symm htd]
    exact DbWrite.apply_frame hins (Ne.symm ht)
  simp only [DbWrite.apply] at hins
  split at hins
  · cases hins
  next hfree =>
  cases hins
  rw [Function.update_self] at hrows
  refine h.setClients (fun c' hc' => ?_) ?_ (hother _ (by decide) (by decide))
    (hother _ (by decide) (by decide))
  · rw [hrows] at hc'
    rcases List.mem_append.mp hc' with hc' | hc'
    · exact h.clients c' (.inl hc')
    · exact List.mem_singleton.mp hc' ▸ hc
  · rw [hrows]
    refine h.clientIds.append fun r hr he => hfree (List.any_eq_true.mpr ⟨r, hr, ?_⟩)
    simp [conflicts, sameKey, he]

theorem SecretsOk.createClient (h : SecretsOk keyId plain w) (hdata : Encrypts keyId plain data)
    (req : NewClientRequest) :
    Outcomes semUp (Client.create data req) w fun _ w' => SecretsOk keyId plain w' := by
  refine outcomes_bind (outcomes_mono (firstSecret_keyed hdata) fun r w₁ hr => ?_)
  obtain ⟨hf, hkeyed⟩ := hr
  have h₁ := h.idle hf
  rcases r with e | ⟨secret, kid⟩
  · exact h₁
  refine outcomes_bind (answered_execute fun db hdb => outcomes_ret ?_)
  exact h₁.insertClient (hkeyed secret kid rfl (req.client secret kid) rfl rfl rfl) (by simp) hdb

theorem sanitizeScopes_touches (scps : List String) :
    Touches [] [(.c12hr, .scopes)] (Client.sanitizeScopes scps) :=
  touches_bind Scope.findAll_touches fun _ => touches_ret _

/-- The secret of an update: with the old `secret_kid` this is the key of the secret, if the one
that is active has this id. -/
theorem newSecret_keyed (hdata : Encrypts keyId plain data) (hc : c.Keyed keyId)
    {confidential : Bool}
    (hkid : confidential = true → c.confidential = false → c.secretKid = some data.encKeyActive) :
    Outcomes semUp (c.newSecret data confidential) w fun r w' => Frame [] [] w w' ∧
      ∀ s, r = .ok s → ∀ c' : Client, c'.confidential = confidential → c'.secret = s →
        c'.secretKid = c.secretKid → c'.Keyed keyId := by
  unfold Client.newSecret
  cases confidential with
  | false =>
      refine outcomes_ret ⟨.refl _ _ _, fun s hr c' hconf hs _ => ?_⟩
      cases hr
      refine ⟨fun h => ?_, fun _ => hs⟩
      rw [hconf] at h
      cases h
  | true =>
      rw [if_pos rfl]
      split
      · next hconf =>
          refine outcomes_ret ⟨.refl _ _ _, fun s hr c' hconf' hs hk => ?_⟩
          cases hr
          refine ⟨fun _ => ?_, fun h => ?_⟩
          · rw [hs, hk]
            exact hc.1 hconf
          · rw [hconf'] at h
            cases h
      · next hconf =>
          refine outcomes_bind (outcomes_mono (generateNewSecret_keyed hdata) fun r w₁ hr => ?_)
          obtain ⟨hf, hkey⟩ := hr
          rcases r with e | ⟨clear, enc⟩
          · exact ⟨hf, fun s hr => by cases hr⟩
          refine outcomes_ret ⟨hf, fun s hr c' hconf' hs hk => ?_⟩
          cases hr
          have hkid := hkid rfl (by simpa using hconf)
          refine ⟨fun _ => ⟨enc, _, hs, hk.trans hkid, hkey _ rfl⟩, fun h => ?_⟩
          rw [hconf'] at h
          cases h

theorem SecretsOk.updateClient (h : SecretsOk keyId plain w) (hdata : Encrypts keyId plain data)
    {req : UpdateClientRequest}
    (hclean : ∀ c, FoundClient w id c → req.confidential = true → c.confidential = false →
      c.secretKid = some data.encKeyActive) :
    Outcomes semUp (Rauthy.updateClient data id req) w fun _ w' => SecretsOk keyId plain w' := by
  refine outcomes_bind (outcomes_mono (h.findClient id) fun r w₁ hr => ?_)
  obtain ⟨h₁, -, hfound⟩ := hr
  rcases r with e | c
  · exact h₁
  have hc := hfound c rfl
  refine outcomes_bind (outcomes_throwIf (fun _ => ?_) fun _ => h₁)
  refine outcomes_bind (outcomes_mono (newSecret_keyed hdata (h.clients c hc.stored) (hclean c hc))
    fun r w₂ hr => ?_)
  obtain ⟨hf₂, hkeyed⟩ := hr
  have h₂ := h₁.still hf₂ (by simp) (by simp)
  rcases r with e | secret
  · exact h₂
  refine outcomes_bind fun r w₃ hx => ?_
  have h₃ := h₂.still ((sanitizeScopes_touches _).frame hx.of_answering) (by simp) (by simp)
  rcases r with e | scopes
  · exact h₃
  refine outcomes_bind fun r w₄ hx => ?_
  have h₄ := h₃.still ((sanitizeScopes_touches _).frame hx.of_answering) (by simp) (by simp)
  rcases r with e | defaultScopes
  · exact h₄
  refine outcomes_bind (outcomes_mono (h₄.saveClient ?_) fun r w₅ hr => ?_)
  · exact hkeyed secret rfl _ rfl rfl rfl
  · obtain ⟨h₅, rfl, -⟩ := hr
    exact outcomes_ret h₅

theorem SecretsOk.generateNewSecret (h : SecretsOk keyId plain w)
    (hdata : Encrypts keyId plain data)
    (hclean : ∀ c, FoundClient w id c → c.secretKid = some data.encKeyActive) :
    Outcomes semUp (Rauthy.generateNewSecret data id) w fun _ w' => SecretsOk keyId plain w' := by
  refine outcomes_bind (outcomes_mono (h.findClient id) fun r w₁ hr => ?_)
  obtain ⟨h₁, -, hfound⟩ := hr
  rcases r with e | c
  · exact h₁
  refine outcomes_bind (outcomes_mono (generateNewSecret_keyed hdata) fun r w₂ hr => ?_)
  obtain ⟨hf, hkey⟩ := hr
  have h₂ := h₁.still hf (by simp) (by simp)
  rcases r with e | ⟨clear, enc⟩
  · exact h₂
  have hkeyed : ({ c with confidential := true, secret := some enc } : Client).Keyed keyId :=
    ⟨fun _ => ⟨enc, _, rfl, hclean c (hfound c rfl), hkey _ rfl⟩, fun hf => by cases hf⟩
  refine outcomes_bind (outcomes_mono (h₂.saveClient hkeyed) fun r w₃ hr => ?_)
  obtain ⟨h₃, rfl, -⟩ := hr
  exact outcomes_ret h₃

theorem SecretsOk.deleteClient (h : SecretsOk keyId plain w) (id : String) :
    Outcomes semUp (Rauthy.deleteClient id) w fun _ w' => SecretsOk keyId plain w' := by
  refine outcomes_bind (outcomes_throwIf (fun _ => ?_) fun _ => h)
  refine outcomes_bind (outcomes_mono (h.findClient id) fun r w₁ hr => ?_)
  obtain ⟨h₁, -, -⟩ := hr
  rcases r with e | c
  · exact h₁
  refine outcomes_bind (answered_execute fun db hdb => ?_)
  have hrows := Client.deleteStmts_clients hdb
  have hother := fun t ht => applyAll_frame (t := t) hdb (Client.not_deleteStmts_table ht)
  have h₂ : SecretsOk keyId plain { w₁ with db } := by
    refine h₁.setClients (fun c' hc' => ?_) ?_ (hother _ (by decide)) (hother _ (by decide))
    · rw [hrows] at hc'
      exact h₁.clients c' (.inl (List.mem_filter.mp hc').1)
    · rw [hrows]
      exact h₁.clientIds.sublist List.filter_sublist
  intro r w' hx
  have htouch : Touches [] [] (do
      cacheDel .c12hr (Client.getCacheEntry c.id)
      runIf (c.isDynamic = true) (cacheDel .c12hr (ClientDyn.getCacheEntry c.id))) :=
    touches_bind (touches_cacheDel _ _) fun _ => touches_runIf (touches_cacheDel _ _)
  exact h₂.still (htouch.frame hx.of_answering) (by simp) (by simp)

theorem tryFromDynReg_keyed (hdata : Encrypts keyId plain data) (req : DynamicClientRequest) :
    Outcomes semUp (Client.tryFromDynReg data req) w fun r w' => Frame [] [] w w' ∧
      ∀ c, r = .ok c → c.Keyed keyId := by
  refine outcomes_bind fun r w₁ hx => ?_
  have hf₁ : Frame [] [] w w₁ := (touches_getRand 16).frame hx.of_answering
  rcases r with e | rnd
  · exact ⟨hf₁, fun c hc => by cases hc⟩
  refine outcomes_bind (outcomes_mono (firstSecret_keyed hdata) fun r w₂ hr => ?_)
  obtain ⟨hf₂, hkeyed⟩ := hr
  rcases r with e | ⟨secret, kid⟩
  · exact ⟨hf₁.trans hf₂, fun c hc => by cases hc⟩
  · refine outcomes_ret ⟨hf₁.trans hf₂, fun c hc => ?_⟩
    cases hc
    exact hkeyed secret kid rfl _ rfl rfl rfl

theorem SecretsOk.createDynamic (h : SecretsOk keyId plain w) (hdata : Encrypts keyId plain data)
    (req : DynamicClientRequest) :
    Outcomes semUp (Client.createDynamic data req) w fun _ w' => SecretsOk keyId plain w' := by
  refine outcomes_bind (outcomes_mono (tryFromDynReg_keyed hdata req) fun r w₁ hr => ?_)
  obtain ⟨hf₁, hkeyed⟩ := hr
  have h₁ := h.idle hf₁
  rcases r with e | c
  · exact h₁
  refine outcomes_bind (answered_execute fun db hdb => ?_)
  cases hdb
  have hcreate : Outcomes semUp (ClientDyn.create data c.id
      (req.tokenEndpointAuthMethod.getD "client_secret_basic")) w₁ fun r w' => Frame [] [] w₁ w' ∧
      ∀ x, r = .ok x → x.2.table = .clientsDyn := by
    intro r w₂ hx
    have htouch : Touches [] [] (ClientDyn.create data c.id
        (req.tokenEndpointAuthMethod.getD "client_secret_basic")) := by
      refine touches_bind (Client.generateNewSecret_touches data) fun _ => ?_
      refine touches_bind touches_unixTimestamp fun _ => touches_bind (touches_execute (by simp)) ?_
      exact fun _ => touches_ret _
    refine ⟨htouch.frame hx.of_answering, fun x hr => ?_⟩
    rw [hr] at hx
    obtain ⟨_, _, -, hx⟩ := exec_bind_ok.mp hx
    obtain ⟨_, _, -, hx⟩ := exec_bind_ok.mp hx
    obtain ⟨_, _, -, hx⟩ := exec_bind_ok.mp hx
    cases hx.1
    rfl
  refine outcomes_bind (outcomes_mono hcreate fun r w₂ hr => ?_)
  obtain ⟨hf₂, htable⟩ := hr
  have h₂ := h₁.still hf₂ (by simp) (by simp)
  rcases r with e | ⟨dyn, stmt⟩
  · exact h₂
  refine outcomes_bind (answered_execute fun db hdb => ?_)
  have hdyn : ∀ s ∈ [stmt], s.table = .clientsDyn := by
    intro s hs
    rw [List.mem_singleton.mp hs]
    exact htable _ rfl
  have h₃ := h₂.insertClient (hkeyed c rfl) hdyn hdb
  exact outcomes_answer (fun _ _ => h₃) fun _ _ => h₃

theorem ClientDyn.update_spec (slf : ClientDyn) (method : String) :
    Outcomes semUp (slf.update data method) w fun r w' =>
      Frame [] [(.c12hr, .clientDyn)] w w' ∧ ∀ x, r = .ok x → x.2.table = .clientsDyn := by
  intro r w' hx
  refine ⟨(slf.update_touches data method).frame hx.of_answering, fun x hr => ?_⟩
  rw [hr] at hx
  obtain ⟨_, _, -, hx⟩ := exec_bind_ok.mp hx
  obtain ⟨_, _, -, hx⟩ := exec_bind_ok.mp hx
  obtain ⟨_, _, -, hx⟩ := exec_bind_ok.mp hx
  obtain ⟨_, _, -, hx⟩ := exec_bind_ok.mp hx
  cases hx.1
  rfl

theorem SecretsOk.saveTxn (h : SecretsOk keyId plain w) (hc : c.Keyed keyId) :
    Outcomes semUp c.saveTxn w fun r w' => SecretsOk keyId plain w' ∧
      ∀ s, r = .ok s → s = c.saveStmt := by
  refine outcomes_bind (answered_execute fun db hdb => ?_)
  cases hdb
  refine outcomes_bind (answered_cachePut (outcomes_bind (answered_select
    (outcomes_bind (answered_cachePut (outcomes_ret ⟨?_, fun s hs => ?_⟩))))))
  · exact (h.putClient hc _).put ⟨by simp [CacheVal.slot], by simp [CacheVal.slot]⟩
  · cases hs
    rfl

theorem SecretsOk.updateDynamic (h : SecretsOk keyId plain w) (hdata : Encrypts keyId plain data)
    (req : DynamicClientRequest) (clientDyn : ClientDyn) :
    Outcomes semUp (Client.updateDynamic data req clientDyn) w
      fun _ w' => SecretsOk keyId plain w' := by
  refine outcomes_bind (outcomes_mono (tryFromDynReg_keyed hdata req) fun r w₁ hr => ?_)
  obtain ⟨hf₁, hkeyed⟩ := hr
  have h₁ := h.idle hf₁
  rcases r with e | c
  · exact h₁
  refine outcomes_bind (outcomes_mono (h₁.findClient _) fun r w₂ hr => ?_)
  obtain ⟨h₂, -, -⟩ := hr
  rcases r with e | current
  · exact h₂
  refine outcomes_bind (outcomes_throwIf (fun _ => ?_) fun _ => h₂)
  -- what the new client keeps of the old one does not touch its secret
  have hc : ({ c with id := current.id, forceMfa := current.forceMfa, scopes := current.scopes
                      defaultScopes := current.defaultScopes } : Client).Keyed keyId := hkeyed c rfl
  refine outcomes_bind (outcomes_mono (h₂.saveTxn hc) fun r w₃ hr => ?_)
  obtain ⟨h₃, hstmt⟩ := hr
  rcases r with e | stmt
  · exact h₃
  obtain rfl := hstmt stmt rfl
  refine outcomes_bind (outcomes_mono (ClientDyn.update_spec _ _) fun r w₄ hr => ?_)
  obtain ⟨hf₄, htable⟩ := hr
  have h₄ := h₃.still hf₄ (by simp) (by simp)
  rcases r with e | ⟨dyn, stmtDyn⟩
  · exact h₄
  refine outcomes_bind (answered_execute fun db hdb => ?_)
  obtain ⟨db₁, hsave, hrest⟩ := Option.bind_eq_some_iff.mp hdb
  obtain ⟨hrows, hother⟩ := saveStmt_clients hsave
  have hdyn : ∀ {t : Table}, t ≠ .clientsDyn → db t = db₁ t := by
    intro t ht
    refine applyAll_frame hrest fun s hs => ?_
    rw [List.mem_singleton.mp hs, htable _ rfl]
    exact Ne.symm ht
  have h₅ : SecretsOk keyId plain { w₄ with db } := h₄.replaceClient hc
    ((hdyn (by decide)).trans hrows) fun t ht htd => (hdyn htd).trans (hother t ht)
  exact outcomes_answer (fun _ _ => h₅) fun _ _ => h₅

/-! ### API keys -/

theorem SecretsOk.createApiKey (h : SecretsOk keyId plain w) (hdata : Encrypts keyId plain data)
    (name : String) (expires : Option Int) (access : List ApiKeyAccess) :
    Outcomes semUp (ApiKeyEntity.create data name expires access) w
      fun _ w' => SecretsOk keyId plain w' := by
  refine outcomes_bind (answered_unixTimestamp fun ms hms => ?_)
  refine outcomes_bind fun r w₁ hx => ?_
  have hclock : SecretsOk keyId plain { w with clock := ms } :=
    ⟨h.clients, h.apiKeys, h.texts, h.all, h.clientIds, h.apiKeyNames, h.providerIds⟩
  have h₁ := hclock.getRand hx
  rcases r with e | secretPlain
  · exact h₁
  refine outcomes_bind (outcomes_answer (fun secret hsecret => ?_) fun _ _ => h₁)
  refine outcomes_bind (outcomes_answer (fun accessEnc haccess => ?_) fun _ _ => h₁)
  refine outcomes_bind (answered_execute fun db hdb => outcomes_ret ?_)
  have hother : ∀ t, t ≠ .apiKeys → db t = w₁.db t := fun t ht =>
    applyAll_frame hdb fun s hs => by rw [List.mem_singleton.mp hs]; exact Ne.symm ht
  simp only [applyAll, DbWrite.apply] at hdb
  split at hdb
  · cases hdb
  next hfree =>
  cases hdb
  refine h₁.setApiKeys (fun k hk => ?_) ?_ hother
  · rw [Function.update_self] at hk
    rcases List.mem_append.mp hk with hk | hk
    · exact h₁.apiKeys k hk
    · rw [List.mem_singleton.mp hk]
      exact ⟨(hdata.encrypt _ _ hsecret).1, (hdata.encrypt _ _ haccess).1⟩
  · rw [Function.update_self]
    refine h₁.apiKeyNames.append fun r hr he => hfree (List.any_eq_true.mpr ⟨r, hr, ?_⟩)
    simp [conflicts, sameKey, he]

theorem SecretsOk.deleteApiKey (h : SecretsOk keyId plain w) (name : String) :
    Outcomes semUp (ApiKeyEntity.delete name) w fun _ w' => SecretsOk keyId plain w' := by
  refine outcomes_bind (answered_execute fun db hdb => answered_cacheDel ?_)
  simp only [applyAll, DbWrite.apply, Option.bind_some, Option.some.injEq] at hdb
  subst hdb
  refine SecretsOk.del ?_ _ _
  refine h.setApiKeys (fun k hk => ?_) ?_ fun t ht => Function.update_of_ne ht _ _
  · rw [Function.update_self] at hk
    exact h.apiKeys k (List.mem_filter.mp hk).1
  · rw [Function.update_self]
    exact h.apiKeyNames.sublist List.filter_sublist

/-- The statement of an update that sets the secret, the access rights and their key. -/
theorem SecretsOk.writeApiKey (h : SecretsOk keyId plain w) {name : String}
    {f : ApiKeyEntity → ApiKeyEntity} (hf : ∀ k, (f k).Keyed keyId) (hname : ∀ k, (f k).name = k.name) :
    Outcomes semUp (execute [.update .apiKeys (fun k => k.name == name) f]) w
      fun _ w' => SecretsOk keyId plain w' := by
  refine answered_execute fun db hdb => ?_
  simp only [applyAll, DbWrite.apply, Option.bind_some, Option.some.injEq] at hdb
  subst hdb
  refine h.setApiKeys (fun k hk => ?_) ?_ fun t ht => Function.update_of_ne ht _ _
  · rw [Function.update_self] at hk
    obtain ⟨x, hx, rfl⟩ := List.mem_map.mp hk
    split
    · exact hf x
    · exact h.apiKeys x hx
  · rw [Function.update_self]
    refine h.apiKeyNames.map fun k => ?_
    split
    · exact hname k
    · rfl

theorem SecretsOk.generateSecret (h : SecretsOk keyId plain w) (hdata : Encrypts keyId plain data)
    (name : String) :
    Outcomes semUp (ApiKeyEntity.generateSecret data name) w
      fun _ w' => SecretsOk keyId plain w' := by
  refine outcomes_bind (answered_fetchOne (fun entity _ => ?_) fun _ => h)
  refine outcomes_bind (outcomes_answer (fun apiKey _ => ?_) fun _ _ => h)
  refine outcomes_bind fun r w₁ hx => ?_
  have h₁ := h.getRand hx
  rcases r with e | secretPlain
  · exact h₁
  refine outcomes_bind (outcomes_answer (fun secret hsecret => ?_) fun _ _ => h₁)
  refine outcomes_bind (outcomes_answer (fun access haccess => ?_) fun _ _ => h₁)
  refine outcomes_bind (outcomes_mono (h₁.writeApiKey (fun k => ?_) fun k => rfl) fun r w₂ h₂ => ?_)
  · exact ⟨(hdata.encrypt _ _ hsecret).1, (hdata.encrypt _ _ haccess).1⟩
  · rcases r with e | ⟨⟩
    · exact h₂
    · exact outcomes_bind (answered_cacheDel (outcomes_ret (h₂.del _ _)))

theorem SecretsOk.updateApiKey (h : SecretsOk keyId plain w) (hdata : Encrypts keyId plain data)
    (name : String) (expires : Option Int) (access : List ApiKeyAccess) :
    Outcomes semUp (ApiKeyEntity.update data name expires access) w
      fun _ w' => SecretsOk keyId plain w' := by
  refine outcomes_bind (answered_fetchOne (fun entity _ => ?_) fun _ => h)
  refine outcomes_bind (outcomes_answer (fun apiKey _ => ?_) fun _ _ => h)
  refine outcomes_bind (outcomes_answer (fun secret hsecret => ?_) fun _ _ => h)
  refine outcomes_bind (outcomes_answer (fun accessEnc haccess => ?_) fun _ _ => h)
  refine outcomes_bind (outcomes_mono (h.writeApiKey (fun k => ?_) fun k => rfl) fun r w₂ h₂ => ?_)
  · exact ⟨(hdata.encrypt _ _ hsecret).1, (hdata.encrypt _ _ haccess).1⟩
  · rcases r with e | ⟨⟩
    · exact h₂
    · exact answered_cacheDel (h₂.del _ _)

/-! ### Providers -/

theorem CacheVal.authProviders?_eq_some {v : CacheVal} {l : List AuthProvider}
    (h : v.authProviders? = some l) : v = .authProviders l := by
  cases v <;> simp_all [CacheVal.authProviders?]

theorem SecretsOk.putProviders (h : SecretsOk keyId plain w) :
    SecretsOk keyId plain (w.put .c12hr k (.authProviders (w.db .authProviders))) := by
  refine ⟨fun c hc => h.clients c ?_, h.apiKeys, h.texts, fun l hl => ?_, h.clientIds,
    h.apiKeyNames, h.providerIds⟩
  · rcases hc with hc | ⟨k', hk'⟩
    · exact .inl hc
    · rw [World.put_cache] at hk'
      split at hk'
      · cases hk'
      · exact .inr ⟨k', hk'⟩
  · rw [World.put_cache] at hl
    split at hl
    · cases hl
      rfl
    · exact h.all l hl

theorem SecretsOk.findAllProviders (h : SecretsOk keyId plain w) :
    Outcomes semUp AuthProvider.findAll w fun r w' => SecretsOk keyId plain w' ∧ w'.db = w.db ∧
      ∀ l, r = .ok l → l = w.db .authProviders := by
  refine outcomes_bind fun r w₁ hx => ?_
  have hw₁ := exec_cacheGet_world hx.of_answering
  have h₁ : SecretsOk keyId plain w₁ := by
    rcases hw₁ with rfl | rfl
    · exact h
    · exact h.del _ _
  have hdb : w₁.db = w.db := by rcases hw₁ with rfl | rfl <;> rfl
  rcases r with e | - | l
  · exact ⟨h₁, hdb, fun l hl => by cases hl⟩
  · refine outcomes_bind (answered_select (outcomes_bind (answered_cachePut (outcomes_ret ?_))))
    rw [List.filter_true]
    refine ⟨h₁.putProviders, hdb, fun l hl => ?_⟩
    cases hl
    rw [hdb]
  · refine outcomes_ret ⟨h₁, hdb, fun l' hl => ?_⟩
    cases hl
    rcases exec_cacheGet.mp hx.of_answering with ⟨hn, -⟩ | ⟨a, v, ha, hv, hv', -⟩
    · cases hn
    · cases ha
      rw [CacheVal.authProviders?_eq_some hv'] at hv
      exact h.all _ hv

/-- After new rows of the providers, their list is read again. -/
theorem SecretsOk.invalidateCacheAll (h : SecretsOk keyId plain w)
    (hrows : ∀ p ∈ db .authProviders, ∀ s, p.secret = some s → ∃ t, plain s = some (Text.asBytes t))
    (hu : UniqueKey AuthProvider.id (db .authProviders))
    (hother : ∀ t, t ≠ .authProviders → t ≠ .users → db t = w.db t) :
    Outcomes semUp (AuthProvider.invalidateCacheAll data) { w with db } fun _ w' =>
      SecretsOk keyId plain w' ∧ w'.db = db := by
  refine outcomes_bind (answered_cacheDel (outcomes_bind (answered_cacheDel ?_)))
  have h₁ := (h.setProviders hrows hu hother).del .c12hr "provider_json_tpl"
  refine outcomes_bind (outcomes_mono (outcomes_cachedInv
    (I := fun w => SecretsOk keyId plain w ∧ w.db = db) ?_ ?_ ?_ ⟨h₁, rfl⟩) fun r w₂ h₂ => ?_)
  · exact fun w hw => ⟨hw.1.del _ _, hw.2⟩
  · exact fun w a hw => ⟨hw.1.put ⟨by simp [CacheVal.slot], by simp [CacheVal.slot]⟩, hw.2⟩
  · intro w hw
    refine outcomes_bind (outcomes_mono hw.1.findAllProviders fun r w' hr => ?_)
    have hw' : SecretsOk keyId plain w' ∧ w'.db = db := ⟨hr.1, hr.2.1.trans hw.2⟩
    rcases r with e | l
    · exact hw'
    · exact outcomes_ret hw'
  · rcases r with e | b
    · exact h₂
    · exact outcomes_ret h₂

theorem SecretsOk.deleteProvider (h : SecretsOk keyId plain w) (id : String) :
    Outcomes semUp (AuthProvider.delete data id) w fun _ w' => SecretsOk keyId plain w' := by
  refine outcomes_bind (answered_execute fun db hdb => ?_)
  have hother : ∀ t, t ≠ .authProviders → t ≠ .users → db t = w.db t := fun t ht htu =>
    applyAll_frame hdb fun s hs => by
      simp only [AuthProvider.deleteStmts, List.mem_cons, List.not_mem_nil, or_false] at hs
      rcases hs with rfl | rfl
      · exact Ne.symm ht
      · exact Ne.symm htu
  have hrows : db .authProviders = (w.db .authProviders).filter fun p => !(p.id == id) := by
    simp only [AuthProvider.deleteStmts, applyAll, DbWrite.apply, Option.bind_some,
      Option.some.injEq] at hdb
    subst hdb
    rfl
  refine outcomes_bind (outcomes_mono (h.invalidateCacheAll (fun p hp => ?_) ?_ hother)
    fun r w₁ hr => ?_)
  · rw [hrows] at hp
    exact h.texts p (List.mem_filter.mp hp).1
  · rw [hrows]
    exact h.providerIds.sublist List.filter_sublist
  · rcases r with e | ⟨⟩
    · exact hr.1
    · exact answered_cacheDel (hr.1.del _ _)

theorem tryFromIdReq_secret (hdata : Encrypts keyId plain data) {req : ProviderRequest}
    (h : AuthProvider.tryFromIdReq data id req = .ok p) :
    p.id = id ∧ ∀ s, p.secret = some s → ∃ t, plain s = some (Text.asBytes t) := by
  unfold AuthProvider.tryFromIdReq at h
  rcases hsec : AuthProvider.secretEncrypted data req.clientSecret with e | secret
  · rw [hsec] at h
    cases h
  rw [hsec] at h
  cases h
  refine ⟨rfl, fun s hs => ?_⟩
  dsimp only at hs
  subst hs
  cases hreq : req.clientSecret with
  | none =>
      rw [hreq] at hsec
      cases hsec
  | some t =>
      rw [hreq, AuthProvider.secretEncrypted] at hsec
      rcases henc : data.encrypt (Text.asBytes t) with e | c
      · rw [henc] at hsec
        cases hsec
      · rw [henc] at hsec
        cases hsec
        exact ⟨t, (hdata.encrypt _ _ henc).2⟩

theorem SecretsOk.createProvider (h : SecretsOk keyId plain w) (hdata : Encrypts keyId plain data)
    (payload : ProviderRequest) :
    Outcomes semUp (AuthProvider.create data payload) w fun _ w' => SecretsOk keyId plain w' := by
  refine outcomes_bind fun r w₁ hx => ?_
  have h₁ := h.getRand hx
  rcases r with e | id
  · exact h₁
  refine outcomes_bind (outcomes_answer (fun slf hslf => ?_) fun _ _ => h₁)
  obtain ⟨-, htext⟩ := tryFromIdReq_secret hdata hslf
  refine outcomes_bind (answered_execute fun db hdb => ?_)
  have hother : ∀ t, t ≠ .authProviders → t ≠ .users → db t = w₁.db t := fun t ht _ =>
    applyAll_frame hdb fun s hs => by rw [List.mem_singleton.mp hs]; exact Ne.symm ht
  simp only [applyAll, DbWrite.apply] at hdb
  split at hdb
  · cases hdb
  next hfree =>
  cases hdb
  refine outcomes_bind (outcomes_mono (h₁.invalidateCacheAll (fun p hp => ?_) ?_ hother)
    fun r w₂ hr => ?_)
  · rw [Function.update_self] at hp
    rcases List.mem_append.mp hp with hp | hp
    · exact h₁.texts p hp
    · rw [List.mem_singleton.mp hp]
      exact htext
  · rw [Function.update_self]
    refine h₁.providerIds.append fun r hr he => hfree (List.any_eq_true.mpr ⟨r, hr, ?_⟩)
    simp [conflicts, sameKey, he]
  · rcases r with e | ⟨⟩
    · exact hr.1
    · exact outcomes_bind (answered_cachePut (outcomes_ret (hr.1.put ⟨by simp [CacheVal.slot], by simp [CacheVal.slot]⟩)))

theorem SecretsOk.saveProvider (h : SecretsOk keyId plain w)
    (hp : ∀ s, p.secret = some s → ∃ t, plain s = some (Text.asBytes t)) :
    Outcomes semUp (p.save data) w fun _ w' => SecretsOk keyId plain w' ∧
      w'.db .authProviders = replaceRow AuthProvider.id p (w.db .authProviders) ∧
      ∀ t, t ≠ .authProviders → w'.db t = w.db t := by
  refine outcomes_bind (answered_execute fun db hdb => ?_)
  have hother : ∀ t, t ≠ .authProviders → db t = w.db t := fun t ht =>
    applyAll_frame hdb fun s hs => by rw [List.mem_singleton.mp hs]; exact Ne.symm ht
  have hrows : db .authProviders = replaceRow AuthProvider.id p (w.db .authProviders) := by
    simp only [applyAll, AuthProvider.saveStmt, DbWrite.apply, Option.bind_some,
      Option.some.injEq] at hdb
    subst hdb
    rw [Function.update_self]
    refine List.map_congr_left fun r _ => ?_
    by_cases he : r.id = p.id
    · simp [he]
    · simp [he]
  refine outcomes_bind (outcomes_mono (h.invalidateCacheAll (fun q hq => ?_) ?_
    fun t ht _ => hother t ht) fun r w₂ hr => ?_)
  · rw [hrows] at hq
    rcases mem_replaceRow hq with rfl | ⟨hq, -⟩
    · exact hp
    · exact h.texts q hq
  · rw [hrows]
    exact h.providerIds.replaceRow p
  · obtain ⟨h₂, rfl⟩ := hr
    rcases r with e | ⟨⟩
    · exact ⟨h₂, hrows, hother⟩
    · exact answered_cachePut ⟨h₂.put ⟨by simp [CacheVal.slot], by simp [CacheVal.slot]⟩, hrows, hother⟩

theorem SecretsOk.updateProvider (h : SecretsOk keyId plain w) (hdata : Encrypts keyId plain data)
    (id : String) (payload : ProviderRequest) :
    Outcomes semUp (AuthProvider.update data id payload) w fun _ w' => SecretsOk keyId plain w' := by
  refine outcomes_bind (outcomes_answer (fun slf hslf => ?_) fun _ _ => h)
  exact outcomes_mono (h.saveProvider (tryFromIdReq_secret hdata hslf).2) fun _ _ hr => hr.1

/-! ### The loops of the migration -/

theorem resealed_refl {s : Option Bytes} (h : ∀ b, s = some b → keyId b = some kid) :
    Resealed keyId plain kid s s := by
  cases s with
  | none => exact trivial
  | some b => exact ⟨h b rfl, rfl⟩

theorem Client.Keyed.resealed (h : c.Keyed keyId)
    (hkid : c.confidential = true → c.secretKid = some kid) :
    Resealed keyId plain kid c.secret c.secret := by
  refine resealed_refl fun b hb => ?_
  cases hconf : c.confidential with
  | false =>
      rw [h.2 hconf] at hb
      cases hb
  | true =>
      obtain ⟨s, k, hs, hk, hkey⟩ := h.1 hconf
      rw [hs] at hb
      cases hb
      rw [hkey, ← hk, hkid hconf]

theorem SecretsOk.migrateClient (h : SecretsOk keyId plain w) (hdata : Encrypts keyId plain data)
    (hc : c ∈ w.db .clients) :
    Outcomes semUp (migrateClient data kid c) w fun r w' =>
      SecretsOk keyId plain w' ∧ (∀ t, t ≠ .clients → w'.db t = w.db t) ∧
      (r = .ok () → Rewritten Client.id (fun c c' => Resealed keyId plain kid c.secret c'.secret) c
        (w.db .clients) (w'.db .clients)) := by
  have hkeyed := h.clients c (.inl hc)
  unfold Rauthy.migrateClient
  split
  · next hpublic =>
      refine outcomes_ret ⟨h, fun _ _ => rfl, fun _ => .inl ⟨rfl, hkeyed.resealed fun hconf => ?_⟩⟩
      rw [hpublic] at hconf
      cases hconf
  next hconf =>
  obtain ⟨s, k, hs, -, -⟩ := hkeyed.1 (by simpa using hconf)
  have hstay : ∀ e : Fault ErrorResponse, SecretsOk keyId plain w ∧
      (∀ t, t ≠ .clients → w.db t = w.db t) ∧ ((.error e : Except _ Unit) = .ok () →
        Rewritten Client.id (fun c c' => Resealed keyId plain kid c.secret c'.secret) c
          (w.db .clients) (w.db .clients)) := fun e => ⟨h, fun _ _ => rfl, fun he => by cases he⟩
  rw [hs]
  refine outcomes_bind (outcomes_ret ?_)
  refine outcomes_bind (outcomes_answer (fun dec hdec => ?_) fun _ _ => hstay _)
  refine outcomes_bind (outcomes_answer (fun enc henc => ?_) fun _ _ => hstay _)
  obtain ⟨hkey, hplain⟩ := hdata.encryptWithKeyId _ _ _ henc
  have hnew : ({ c with secret := some enc, secretKid := some kid } : Client).Keyed keyId := by
    refine ⟨fun _ => ⟨enc, kid, rfl, rfl, hkey⟩, fun hpublic => ?_⟩
    exact absurd hpublic hconf
  refine outcomes_mono (h.saveClient hnew) fun r w₁ hr => ?_
  obtain ⟨h₁, -, hrows, hother⟩ := hr
  refine ⟨h₁, hother, fun _ => .of_replace hrows rfl ?_⟩
  show Resealed keyId plain kid c.secret (some enc)
  rw [hs]
  exact ⟨hkey, hplain.trans (hdata.decrypt _ _ hdec).symm⟩

theorem SecretsOk.saveApiKey (h : SecretsOk keyId plain w) {k : ApiKeyEntity}
    (hk : k ∈ w.db .apiKeys) {secret access : Bytes} (hsecret : keyId secret = some kid)
    (haccess : keyId access = some kid) :
    Outcomes semUp (ApiKeyEntity.save { k with secret, access, encKeyId := kid }) w fun _ w' =>
      SecretsOk keyId plain w' ∧ (∀ t, t ≠ .apiKeys → w'.db t = w.db t) ∧
      w'.db .apiKeys =
        replaceRow ApiKeyEntity.name { k with secret, access, encKeyId := kid } (w.db .apiKeys) := by
  refine outcomes_bind (answered_execute fun db hdb => answered_cacheDel ?_)
  have hother : ∀ t, t ≠ .apiKeys → db t = w.db t := fun t ht =>
    applyAll_frame hdb fun s hs => by rw [List.mem_singleton.mp hs]; exact Ne.symm ht
  have hrows : db .apiKeys =
      replaceRow ApiKeyEntity.name { k with secret, access, encKeyId := kid } (w.db .apiKeys) := by
    simp only [applyAll, DbWrite.apply, Option.bind_some, Option.some.injEq] at hdb
    subst hdb
    rw [Function.update_self]
    refine List.map_congr_left fun r hr => ?_
    by_cases he : r.name = k.name
    · obtain rfl := h.apiKeyNames.inj hr hk he
      simp
    · simp [he]
  have h₁ : SecretsOk keyId plain { w with db } := by
    refine h.setApiKeys (fun k' hk' => ?_) ?_ hother
    · rw [hrows] at hk'
      rcases mem_replaceRow hk' with rfl | ⟨hk', -⟩
      · exact ⟨hsecret, haccess⟩
      · exact h.apiKeys k' hk'
    · rw [hrows]
      exact h.apiKeyNames.replaceRow _
  exact ⟨h₁.del _ _, hother, hrows⟩

theorem SecretsOk.migrateApiKey (h : SecretsOk keyId plain w) (hdata : Encrypts keyId plain data)
    {k : ApiKeyEntity} (hk : k ∈ w.db .apiKeys) :
    Outcomes semUp (migrateApiKey data kid k) w fun r w' =>
      SecretsOk keyId plain w' ∧ (∀ t, t ≠ .apiKeys → w'.db t = w.db t) ∧
      (r = .ok () → Rewritten ApiKeyEntity.name (ResealedKey keyId plain kid) k
        (w.db .apiKeys) (w'.db .apiKeys)) := by
  have hstay : ∀ e : Fault ErrorResponse, SecretsOk keyId plain w ∧
      (∀ t, t ≠ .apiKeys → w.db t = w.db t) ∧ ((.error e : Except _ Unit) = .ok () →
        Rewritten ApiKeyEntity.name (ResealedKey keyId plain kid) k (w.db .apiKeys)
          (w.db .apiKeys)) := fun e => ⟨h, fun _ _ => rfl, fun he => by cases he⟩
  refine outcomes_bind (outcomes_answer (fun dec hdec => ?_) fun _ _ => hstay _)
  refine outcomes_bind (outcomes_answer (fun secret hsecret => ?_) fun _ _ => hstay _)
  refine outcomes_bind (outcomes_answer (fun dec' hdec' => ?_) fun _ _ => hstay _)
  refine outcomes_bind (outcomes_answer (fun access haccess => ?_) fun _ _ => hstay _)
  obtain ⟨hkey, hplain⟩ := hdata.encryptWithKeyId _ _ _ hsecret
  obtain ⟨hkey', hplain'⟩ := hdata.encryptWithKeyId _ _ _ haccess
  refine outcomes_mono (h.saveApiKey hk hkey hkey') fun r w₁ hr => ?_
  obtain ⟨h₁, hother, hrows⟩ := hr
  refine ⟨h₁, hother, fun _ => .of_replace hrows rfl ⟨⟨hkey, ?_⟩, hkey', ?_⟩⟩
  · exact hplain.trans (hdata.decrypt _ _ hdec).symm
  · exact hplain'.trans (hdata.decrypt _ _ hdec').symm

theorem SecretsOk.migrateProvider (h : SecretsOk keyId plain w) (hdata : Encrypts keyId plain data)
    (hp : p ∈ w.db .authProviders) (hclean : ∀ s, p.secret = some s → ∃ b, data.decrypt s = .ok b) :
    Outcomes semUp (migrateProvider data kid p) w fun r w' =>
      SecretsOk keyId plain w' ∧ (∀ t, t ≠ .authProviders → w'.db t = w.db t) ∧
      (r = .ok () → Rewritten AuthProvider.id
        (fun p p' => Resealed keyId plain kid p.secret p'.secret) p
        (w.db .authProviders) (w'.db .authProviders)) := by
  unfold Rauthy.migrateProvider
  cases hs : p.secret with
  | none =>
      refine outcomes_ret ⟨h, fun _ _ => rfl, fun _ => .inl ⟨rfl, resealed_refl fun b hb => ?_⟩⟩
      rw [hs] at hb
      cases hb
  | some s =>
      obtain ⟨b, hb⟩ := hclean s hs
      obtain ⟨t, ht⟩ := h.texts p hp s hs
      -- the plaintext is a text, so it survives the conversion
      have hbytes : b = Text.asBytes t := Option.some.inj ((hdata.decrypt _ _ hb).symm.trans ht)
      have hclear : AuthProvider.getSecretCleartext data (some s) = .ok (some t) := by
        rw [AuthProvider.getSecretCleartext, hb, hbytes]
        exact congrArg (fun t => Except.ok (some t)) (hdata.utf8 t)
      rw [hclear]
      refine outcomes_bind (outcomes_answer (fun enc henc => ?_) fun _ _ => ?_)
      · obtain ⟨hkey, hplain⟩ := hdata.encryptWithKeyId _ _ _ henc
        refine outcomes_mono (h.saveProvider fun s' hs' => ?_) fun r w₁ hr => ?_
        · cases hs'
          exact ⟨t, hplain⟩
        · obtain ⟨h₁, hrows, hother⟩ := hr
          refine ⟨h₁, hother, fun _ => .of_replace hrows rfl ?_⟩
          show Resealed keyId plain kid p.secret (some enc)
          rw [hs]
          exact ⟨hkey, hplain.trans ht.symm⟩
      · exact ⟨h, fun _ _ => rfl, fun he => by cases he⟩

theorem rotateJwks_touches :
    Touches [.jwks] [] (rotateJwks data gen) := by
  have hkey : ∀ alg der, Touches [.jwks] [] (rotateJwk data alg der) := by
    intro alg der
    refine touches_bind (touches_answer _) fun _ => touches_bind (touches_getRand _) fun _ => ?_
    refine touches_bind (touches_answer _) fun _ => touches_bind touches_unixTimestamp fun _ => ?_
    exact touches_execute (by simp [DbWrite.table])
  refine touches_bind (hkey _ _) fun _ => touches_bind (hkey _ _) fun _ => ?_
  refine touches_bind (hkey _ _) fun _ => touches_bind (hkey _ _) fun _ => ?_
  refine touches_bind (touches_cacheDel _ _) fun _ => touches_bind (touches_cacheDel _ _) fun _ => ?_
  refine touches_bind (touches_cacheDel _ _) fun _ => touches_bind (touches_cacheDel _ _) fun _ => ?_
  exact touches_cacheDel _ _

theorem SecretsOk.migrateClients (h : SecretsOk keyId plain w) (hdata : Encrypts keyId plain data) :
    Outcomes semUp (forEach (Rauthy.migrateClient data kid)
        ((w.db .clients).filter fun c => decide (c.secretKid ≠ some kid))) w fun r w' =>
      SecretsOk keyId plain w' ∧ (∀ t, t ≠ .clients → w'.db t = w.db t) ∧
      (r = .ok () → Rowwise Client.id (fun c c' => Resealed keyId plain kid c.secret c'.secret)
        (w.db .clients) (w'.db .clients)) := by
  refine outcomes_mono (outcomes_rewrites Client.id
    (fun c c' => Resealed keyId plain kid c.secret c'.secret) (fun w => w.db .clients)
    (fun w' => SecretsOk keyId plain w' ∧ ∀ t, t ≠ .clients → w'.db t = w.db t)
    (fun _ hI => hI.1.clientIds) (fun w' c _ hI hc => ?_) (h.clientIds.sublist List.filter_sublist)
    ⟨h, fun _ _ => rfl⟩ fun c hc => (List.mem_filter.mp hc).1) fun r w₁ hr => ?_
  · refine outcomes_mono (hI.1.migrateClient hdata hc) fun r w'' hr => ⟨⟨hr.1, fun t ht => ?_⟩, hr.2.2⟩
    rw [hr.2.1 t ht, hI.2 t ht]
  · refine ⟨hr.1.1, hr.1.2, fun hok => (hr.2 hok).all fun c hc hp => ?_⟩
    exact (h.clients c (.inl hc)).resealed fun _ => by simpa using hp

theorem SecretsOk.migrateApiKeys (h : SecretsOk keyId plain w) (hdata : Encrypts keyId plain data) :
    Outcomes semUp (forEach (Rauthy.migrateApiKey data kid)
        ((w.db .apiKeys).filter fun k => decide (k.encKeyId ≠ kid))) w fun r w' =>
      SecretsOk keyId plain w' ∧ (∀ t, t ≠ .apiKeys → w'.db t = w.db t) ∧
      (r = .ok () → Rowwise ApiKeyEntity.name (ResealedKey keyId plain kid)
        (w.db .apiKeys) (w'.db .apiKeys)) := by
  refine outcomes_mono (outcomes_rewrites ApiKeyEntity.name (ResealedKey keyId plain kid)
    (fun w => w.db .apiKeys)
    (fun w' => SecretsOk keyId plain w' ∧ ∀ t, t ≠ .apiKeys → w'.db t = w.db t)
    (fun _ hI => hI.1.apiKeyNames) (fun w' k _ hI hk => ?_)
    (h.apiKeyNames.sublist List.filter_sublist) ⟨h, fun _ _ => rfl⟩
    fun k hk => (List.mem_filter.mp hk).1) fun r w₁ hr => ?_
  · refine outcomes_mono (hI.1.migrateApiKey hdata hk) fun r w'' hr => ⟨⟨hr.1, fun t ht => ?_⟩, hr.2.2⟩
    rw [hr.2.1 t ht, hI.2 t ht]
  · refine ⟨hr.1.1, hr.1.2, fun hok => (hr.2 hok).all fun k hk hp => ?_⟩
    have hkid : k.encKeyId = kid := by simpa using hp
    obtain ⟨hs, ha⟩ := h.apiKeys k hk
    exact ⟨⟨hkid ▸ hs, rfl⟩, hkid ▸ ha, rfl⟩

theorem SecretsOk.migrateProviders (h : SecretsOk keyId plain w) (hdata : Encrypts keyId plain data)
    (hclean : ∀ p ∈ w.db .authProviders, ∀ s, p.secret = some s → ∃ b, data.decrypt s = .ok b) :
    Outcomes semUp (forEach (Rauthy.migrateProvider data kid) (w.db .authProviders)) w fun r w' =>
      SecretsOk keyId plain w' ∧ (∀ t, t ≠ .authProviders → w'.db t = w.db t) ∧
      (r = .ok () → Rowwise AuthProvider.id
        (fun p p' => Resealed keyId plain kid p.secret p'.secret)
        (w.db .authProviders) (w'.db .authProviders)) := by
  refine outcomes_mono (outcomes_rewrites AuthProvider.id
    (fun p p' => Resealed keyId plain kid p.secret p'.secret) (fun w => w.db .authProviders)
    (fun w' => SecretsOk keyId plain w' ∧ ∀ t, t ≠ .authProviders → w'.db t = w.db t)
    (fun _ hI => hI.1.providerIds) (fun w' p hp hI hp' => ?_) h.providerIds ⟨h, fun _ _ => rfl⟩
    fun p hp => hp) fun r w₁ hr => ?_
  · refine outcomes_mono (hI.1.migrateProvider hdata hp' (hclean p hp))
      fun r w'' hr => ⟨⟨hr.1, fun t ht => ?_⟩, hr.2.2⟩
    rw [hr.2.1 t ht, hI.2 t ht]
  · refine ⟨hr.1.1, hr.1.2, fun hok => ?_⟩
    obtain ⟨g, hg, hrows⟩ := hr.2 hok
    exact ⟨g, hg, fun p hp => ⟨(hrows p hp).1, (hrows p hp).2.1 hp⟩⟩

/-- **The migration.** -/
theorem SecretsOk.migrate (h : SecretsOk keyId plain w) (hdata : Encrypts keyId plain data)
    (hclean : ∀ p ∈ w.db .authProviders, ∀ s, p.secret = some s → ∃ b, data.decrypt s = .ok b) :
    Outcomes semUp (migrateEncryptionAlg data kid gen) w fun r w' =>
      SecretsOk keyId plain w' ∧ (r = .ok () → Migrated keyId plain kid w w') := by
  refine outcomes_bind (outcomes_answer (fun _ _ => ?_) fun _ _ => ⟨h, fun he => by cases he⟩)
  refine outcomes_bind (answered_select ?_)
  rw [List.filter_true]
  refine outcomes_bind (outcomes_mono (h.migrateClients hdata) fun r w₁ hr => ?_)
  obtain ⟨h₁, hother₁, hclients⟩ := hr
  rcases r with e | ⟨⟩
  · exact ⟨h₁, fun he => by cases he⟩
  refine outcomes_bind fun r w₂ hx => ?_
  have hf := rotateJwks_touches.frame hx.of_answering
  have h₂ := h₁.still hf (by simp) (by simp)
  rcases r with e | ⟨⟩
  · exact ⟨h₂, fun he => by cases he⟩
  refine outcomes_bind (answered_select ?_)
  rw [List.filter_true]
  refine outcomes_bind (outcomes_mono (h₂.migrateApiKeys hdata) fun r w₃ hr => ?_)
  obtain ⟨h₃, hother₃, hkeys⟩ := hr
  rcases r with e | ⟨⟩
  · exact ⟨h₃, fun he => by cases he⟩
  refine outcomes_bind (outcomes_mono h₃.findAllProviders fun r w₄ hr => ?_)
  obtain ⟨h₄, hdb, hall⟩ := hr
  rcases r with e | l
  · exact ⟨h₄, fun he => by cases he⟩
  -- the providers are those from before the migration
  have hrows : w₄.db .authProviders = w.db .authProviders := by
    rw [hdb, hother₃ _ (by decide), hf.db _ (by simp), hother₁ _ (by decide)]
  rw [hall l rfl, ← hdb]
  refine outcomes_mono (h₄.migrateProviders hdata (hrows ▸ hclean)) fun r w₅ hr => ?_
  obtain ⟨h₅, hother₅, hproviders⟩ := hr
  refine ⟨h₅, fun hok => ⟨?_, ?_, hrows ▸ hproviders hok⟩⟩
  · rw [hother₅ _ (by decide), hdb, hother₃ _ (by decide), hf.db _ (by simp)]
    exact hclients rfl
  · rw [hother₅ _ (by decide), hdb, ← hother₁ .apiKeys (by decide), ← hf.db .apiKeys (by simp)]
    exact hkeys rfl

/-- **One operation.** -/
theorem SecretsOk.step (h : SecretsOk keyId plain w) (hdata : Encrypts keyId plain data) {o : SecretOp}
    (ho : o.Clean data w) : Outcomes semUp (o.prog data) w fun _ w' => SecretsOk keyId plain w' := by
  cases o with
  | createClient req => exact outcomes_unit (h.createClient hdata req)
  | updateClient id req => exact outcomes_unit (h.updateClient hdata ho)
  | generateNewSecret id => exact outcomes_unit (h.generateNewSecret hdata ho)
  | deleteClient id => exact h.deleteClient id
  | createDynamic req => exact outcomes_unit (h.createDynamic hdata req)
  | updateDynamic req clientDyn => exact outcomes_unit (h.updateDynamic hdata req clientDyn)
  | createApiKey name expires access => exact outcomes_unit (h.createApiKey hdata name expires access)
  | generateSecret name => exact outcomes_unit (h.generateSecret hdata name)
  | updateApiKey name expires access => exact h.updateApiKey hdata name expires access
  | deleteApiKey name => exact h.deleteApiKey name
  | createProvider payload => exact outcomes_unit (h.createProvider hdata payload)
  | updateProvider id payload => exact h.updateProvider hdata id payload
  | deleteProvider id => exact h.deleteProvider id
  | migrate newKid gen => exact outcomes_mono (h.migrate hdata ho) fun _ _ hr => hr.1

theorem SecretHistory.secretsOk (h : SecretHistory keyId plain (fun data w o => o.Clean data w) w) :
    SecretsOk keyId plain w := by
  induction h with
  | start h => exact h
  | step _ hdata hC hx ih => exact ih.step hdata hC _ _ hx

end Keep

/-! ### A process with two keys -/

section TwoKeys

/-- The first byte is the key, as the header of an encrypted value names it. -/
def sealWith (kid : String) (b : Bytes) : Except ErrorResponse Bytes :=
  if kid = "key1" then .ok (1 :: b)
  else if kid = "key2" then .ok (2 :: b)
  else .error ⟨.internal, "Encryption key not found"⟩

def sealKey : Bytes → Option String
  | 1 :: _ => some "key1"
  | 2 :: _ => some "key2"
  | _ => none

def sealedPlain : Bytes → Option Bytes
  | 1 :: b => some b
  | 2 :: b => some b
  | _ => none

def openSealed (c : Bytes) : Except ErrorResponse Bytes :=
  match sealedPlain c with
  | some b => .ok b
  | none => .error ⟨.internal, "Encryption key not found"⟩

def twoKeys (active : String) : AppState :=
  { sampleState with
    encKeyActive := active
    encrypt := sealWith active
    encryptWithKeyId := sealWith
    getStaticKey := fun kid => (sealWith kid []).map fun _ => ()
    decrypt := openSealed
    fromUtf8Lossy := fun b => (String.fromUTF8? b.toByteArray).getD "" }

theorem sealWith_ok {kid : String} {b c : Bytes} (h : sealWith kid b = .ok c) :
    sealKey c = some kid ∧ sealedPlain c = some b := by
  unfold sealWith at h
  split at h
  · next hk =>
      cases h
      exact ⟨by rw [hk]; rfl, rfl⟩
  · split at h
    · next hk =>
        cases h
        exact ⟨by rw [hk]; rfl, rfl⟩
    · cases h

theorem utf8_asBytes (s : String) : (String.fromUTF8? (Text.asBytes s).toByteArray).getD "" = s := by
  have h : (Text.asBytes s).toByteArray = s.toByteArray := String.utf8Encode_toList
  rw [h, String.fromUTF8?, dif_pos s.isValidUTF8]
  rfl

theorem twoKeys_encrypts (active : String) : Encrypts sealKey sealedPlain (twoKeys active) where
  encrypt _ _ h := sealWith_ok h
  encryptWithKeyId _ _ _ h := sealWith_ok h
  decrypt c b h := by
    change openSealed c = .ok b at h
    unfold openSealed at h
    split at h
    · next hc =>
        cases h
        exact hc
    · cases h
  utf8 := utf8_asBytes

def secretsWorld : World := { db := fun _ => [], cache := fun _ _ => none, clock := 0, issued := [] }

theorem secretsWorld_ok : SecretsOk sealKey sealedPlain secretsWorld where
  clients := by
    rintro c (h | ⟨k, h⟩)
    · cases h
    · cases h
  apiKeys := by simp [secretsWorld]
  texts := by simp [secretsWorld]
  all := by simp [secretsWorld]
  clientIds := List.nodup_nil
  apiKeyNames := List.nodup_nil
  providerIds := List.nodup_nil

def appRequest (confidential : Bool) : NewClientRequest :=
  { id := "app", name := none, confidential, redirectUris := [], postLogoutRedirectUris := none }

end TwoKeys

/-! ### Stored key ids -/

section Histories

variable (keyId : Bytes → Option String) (plain : Bytes → Option Bytes)

/-- The id that is stored next to a secret is the id of its key, and a migration that returns
`Ok` reaches every secret. -/
structure KeysNamed (C : AppState → World → SecretOp → Prop) (w : World) : Prop where
  clients : ∀ c ∈ w.db .clients, c.confidential = true →
    ∃ s kid, c.secret = some s ∧ c.secretKid = some kid ∧ keyId s = some kid
  apiKeys : ∀ k ∈ w.db .apiKeys, k.Keyed keyId
  migrated : ∀ {data : AppState} {newKid : String} {gen : JwkKeyPairAlg → Except ErrorResponse Bytes}
    {w' : World}, Encrypts keyId plain data → C data w (.migrate newKid gen) →
    Exec semUp (migrateEncryptionAlg data newKid gen) w (.ok ()) w' →
    Migrated keyId plain newKid w w'

variable {keyId plain}

/-- **Keys of secrets.**  On histories whose operations keep the stored ids in step, the id next
to every secret is that of its key, and a migration moves every secret. -/
theorem secrets_keyed {w : World} (h : SecretHistory keyId plain (fun data w o => o.Clean data w) w) :
    KeysNamed keyId plain (fun data w o => o.Clean data w) w :=
  have hok := h.secretsOk
  { clients := fun c hc hconf => (hok.clients c (.inl hc)).1 hconf
    apiKeys := hok.apiKeys
    migrated := fun hdata hclean hx => (hok.migrate hdata hclean _ _ hx).2 rfl }

theorem secrets_keyed_app : ∃ w, w.db .clients ≠ [] ∧ w.db .apiKeys ≠ [] ∧
    SecretHistory sealKey sealedPlain (fun data w o => o.Clean data w) w ∧
    KeysNamed sealKey sealedPlain (fun data w o => o.Clean data w) w := by
  obtain ⟨r, w, hx, hr⟩ := exists_exec_semUp (do
      (SecretOp.createClient (appRequest true)).prog (twoKeys "key1")
      (SecretOp.createApiKey "ci" none []).prog (twoKeys "key2"))
    [.rand (String.ofList (List.replicate 64 'a')), .ok, .time 0,
      .rand (String.ofList (List.replicate 64 'b')), .ok] secretsWorld
    (fun r w => r.isOk && (!(w.db .clients).isEmpty && !(w.db .apiKeys).isEmpty))
    (by decide +kernel)
  rcases r with e | ⟨⟩
  · cases hr
  simp only [Bool.and_eq_true, Bool.not_eq_true', List.isEmpty_eq_false_iff] at hr
  obtain ⟨_, w₁, hx₁, hx₂⟩ := exec_bind_ok.mp hx
  have h : SecretHistory sealKey sealedPlain (fun data w o => o.Clean data w) w :=
    .step (o := .createApiKey "ci" none []) (.step (o := .createClient (appRequest true))
      (.start secretsWorld_ok) (twoKeys_encrypts "key1") trivial hx₁) (twoKeys_encrypts "key2")
      trivial hx₂
  exact ⟨w, hr.2.1, hr.2.2, h, secrets_keyed h⟩

/-- A public client that gets a secret: the id of its key is not stored. -/
theorem secret_without_key_id :
    ¬ ∀ (keyId : Bytes → Option String) (plain : Bytes → Option Bytes) (w : World),
      SecretHistory keyId plain (fun _ _ _ => True) w →
      KeysNamed keyId plain (fun _ _ _ => True) w := by
  intro hall
  obtain ⟨r, w, hx, hr⟩ := exists_exec_semUp (do
      (SecretOp.createClient (appRequest false)).prog (twoKeys "key1")
      (SecretOp.generateNewSecret "app").prog (twoKeys "key1"))
    [.ok, .miss, .ok, .ok, .rand (String.ofList (List.replicate 64 'a')), .ok, .ok, .ok, .ok]
    secretsWorld
    (fun r w => r.isOk &&
      (w.db .clients).any fun c => c.confidential && c.secretKid.isNone)
    (by decide +kernel)
  rcases r with e | ⟨⟩
  · cases hr
  obtain ⟨c, hc, hkid⟩ := List.any_eq_true.mp hr
  obtain ⟨_, w₁, hx₁, hx₂⟩ := exec_bind_ok.mp hx
  have h := hall sealKey sealedPlain w
    (.step (.step (.start secretsWorld_ok) (twoKeys_encrypts "key1") trivial hx₁)
      (twoKeys_encrypts "key1") trivial hx₂)
  simp only [Bool.and_eq_true, Option.isNone_iff_eq_none] at hkid
  obtain ⟨s, kid, -, hk, -⟩ := h.clients c hc hkid.1
  rw [hkid.2] at hk
  cases hk

end Histories

end Rauthy
