/-
Rauthy/DisabledClients.lean

Token requests for clients that have been disabled.  Requests run one after the
other: updates, creations and deletions of clients, new secrets, token requests of all
grants, and any other programs that do not enable a client.

A client is disabled in the table and in the cache from the update on; every write of
clients but an update or a creation keeps it so (`ClientsOff`).  Of the grants only
`client_credentials` looks at the flag.

Main results:
  * `no_tokens_for_disabled_client`: if the token requests for a disabled client are
    `client_credentials` requests, none of them gets tokens until the client is enabled;
  * `tokens_for_disabled_client`: without, a code of a disabled client is redeemed.
-/
import Rauthy.CodeRedemption

namespace Rauthy

open Prog Pool

/-! ### Clients that stay disabled -/

/-- The clients `D` are disabled, in the table and in the cache, whose entries stand
under the ids of their clients. -/
structure ClientsOff (D : String → Prop) (w : World) : Prop where
  row : ∀ c ∈ w.db .clients, D c.id → c.enabled = false
  entry : ∀ k c, w.cache .c12hr (Client.getCacheEntry k) = some (.client c) →
    c.id = k ∧ (D k → c.enabled = false)

/-- The entries of clients stand under the ids of their clients. -/
def ClientsKeyed (w : World) : Prop := ClientsOff (fun _ => False) w

theorem ClientsOff.mono {D D' : String → Prop} {w : World} (h : ClientsOff D w)
    (hD : ∀ c, D' c → D c) : ClientsOff D' w where
  row c hc hd := h.row c hc (hD _ hd)
  entry k c hk := ⟨(h.entry k c hk).1, fun hd => (h.entry k c hk).2 (hD _ hd)⟩

section Off

variable {D : String → Prop} {w w' : World} {α : Type}
  {c : Client}

theorem ClientsOff.frame {ts : List Table} {cs : List (CacheName × Slot)} (h : ClientsOff D w)
    (hf : Frame ts cs w w') (ht : .clients ∉ ts) (hc : (.c12hr, .client) ∉ cs) :
    ClientsOff D w' where
  row c hm hd := by
    rw [hf.db .clients ht] at hm
    exact h.row c hm hd
  entry k c hk := by
    rcases hf.cache _ _ _ hk with hk | hk
    · exact h.entry k c hk
    · exact absurd hk hc

theorem ClientsOff.put (h : ClientsOff D w) (hc : D c.id → c.enabled = false) :
    ClientsOff D (w.put .c12hr (Client.getCacheEntry c.id) (.client c)) where
  row := h.row
  entry k c' hk := by
    rw [World.put_cache] at hk
    split at hk
    · next heq =>
        cases hk
        have hid := Client.getCacheEntry_inj.mp heq.2
        exact ⟨hid.symm, fun hd => hc (hid ▸ hd)⟩
    · exact h.entry k c' hk

theorem ClientsOff.del {c : CacheName} {k : String} (h : ClientsOff D w) :
    ClientsOff D (w.del c k) :=
  h.frame (frame_del [] [] w c k) (by simp) (by simp)

/-- A program that keeps the clients `D` disabled, and what it returns. -/
def KeepsOff (D : String → Prop) (p : M ErrorResponse α) (F : α → Prop) : Prop :=
  Hoare sem (ClientsOff D) (fun _ => True) p fun a _ => F a

theorem keepsOff_of_touches {T : List Table} {K : List (CacheName × Slot)}
    {p : M ErrorResponse α} (hp : Touches T K p) (ht : .clients ∉ T)
    (hc : (.c12hr, .client) ∉ K) : KeepsOff D p fun _ => True :=
  hoare_of_touches hp fun _ _ hf hI _ => ⟨hI.frame hf ht hc, trivial⟩

theorem keepsOff_grant {p : M ErrorResponse α} (hp : Touches grantTables grantSlots p) :
    KeepsOff D p fun _ => True :=
  keepsOff_of_touches hp (by decide) (by decide)

/-- Reading a client: it has the requested id, and it is disabled if it is one of `D`. -/
theorem keepsOff_find (id : String) :
    KeepsOff D (Client.find id) fun c => c.id = id ∧ (D id → c.enabled = false) := by
  have hget := hoare_cacheGet (I := ClientsOff D) (P := fun _ => True) (c := .c12hr)
    (k := Client.getCacheEntry id) (f := CacheVal.client?)
    (Q := fun x _ => ∀ c, x = some c → c.id = id ∧ (D id → c.enabled = false))
    (fun w hI _ => ⟨hI.del, by simp⟩) (by simp)
    (by
      intro w v c hI _ hv hc c' hc'
      cases hc'
      rw [CacheVal.client?_eq_some] at hc
      rw [hc] at hv
      exact hI.entry id c hv)
  refine hoare_seq hget fun x hx => ?_
  rcases x with - | c
  · have hrow := hoare_fetchOne (I := ClientsOff D) (P := fun _ => True) (t := .clients)
      (p := fun c => c.id == id) (Q := fun c _ => c.id = id ∧ (D id → c.enabled = false))
      (by
        intro w c hI _ hc hid
        rw [beq_iff_eq] at hid
        exact ⟨hid, fun hd => hI.row c hc (hid ▸ hd)⟩)
    refine hoare_seq hrow fun c hc => ?_
    refine hoare_seq (F := fun _ => True) (hoare_cachePut fun w hI _ => ⟨?_, trivial⟩) fun _ _ =>
      hoare_ret fun _ _ _ => hc
    exact hI.put fun hd => hc.2 (hc.1 ▸ hd)
  · exact hoare_ret fun _ _ _ => hx c rfl

/-- The rows after `save`: those of the client have its flag. -/
theorem saveStmt_rows {db : Db} (h : applyAll [c.saveStmt] w.db = some db) :
    ∀ r ∈ db .clients, (r.id = c.id ∧ r.enabled = c.enabled) ∨ r.id ≠ c.id ∧ r ∈ w.db .clients := by
  cases h
  intro r hr
  rw [Function.update_self] at hr
  obtain ⟨r₀, hr₀, rfl⟩ := List.mem_map.mp hr
  by_cases hid : r₀.id = c.id
  · left
    simp [hid]
  · right
    simp [hid, hr₀]

/-- Saving a client that stays disabled if it is one of `D`; afterwards it is disabled
if it was saved so. -/
theorem hoare_save (hc : D c.id → c.enabled = false) :
    Hoare sem (ClientsOff D) (fun _ => True) c.save fun _ w =>
      ClientsOff (fun d => D d ∨ d = c.id ∧ c.enabled = false) w := by
  have hexec := hoare_execute (I := ClientsOff D) (P := fun _ => True) (l := [c.saveStmt])
    (Q := fun _ w => ∀ r ∈ w.db .clients, r.id = c.id → r.enabled = c.enabled)
    (by
      intro w db hI _ hdb
      have hrows := saveStmt_rows hdb
      refine ⟨⟨fun r hr hd => ?_, hI.entry⟩, fun r hr hid => ?_⟩
      · rcases hrows r hr with ⟨hid, hen⟩ | ⟨-, hold⟩
        · rw [hen]
          exact hc (hid ▸ hd)
        · exact hI.row r hold hd
      · rcases hrows r hr with ⟨-, hen⟩ | ⟨hne, -⟩
        · exact hen
        · exact absurd hid hne)
  refine hoare_bind hexec fun _ => ?_
  have hput := hoare_cachePut (I := ClientsOff D)
    (P := fun w => ∀ r ∈ w.db .clients, r.id = c.id → r.enabled = c.enabled) (c := .c12hr)
    (k := Client.getCacheEntry c.id) (v := .client c)
    (Q := fun _ w => ClientsOff (fun d => D d ∨ d = c.id ∧ c.enabled = false) w)
    (by
      intro w hI hrows
      refine ⟨hI.put hc, ⟨fun r hr hd => ?_, fun k c' hk => ?_⟩⟩
      · rcases hd with hd | ⟨hid, hen⟩
        · exact hI.row r hr hd
        · rw [hrows r hr hid]
          exact hen
      · obtain ⟨hid, hoff⟩ := (hI.put hc).entry k c' hk
        refine ⟨hid, fun hd => ?_⟩
        rcases hd with hd | ⟨rfl, hen⟩
        · exact hoff hd
        · rw [World.put_cache, if_pos ⟨rfl, rfl⟩] at hk
          cases hk
          exact hen)
  refine hoare_bind hput fun _ => ?_
  -- the list of all clients has its own entry
  have hlist : ∀ {β : Type} {p : M ErrorResponse β}, Touches [] [(.c12hr, .clients)] p →
      Hoare sem (ClientsOff D) (fun w => ClientsOff (fun d => D d ∨ d = c.id ∧ c.enabled = false) w)
        p fun _ w => ClientsOff (fun d => D d ∨ d = c.id ∧ c.enabled = false) w := fun hp =>
    hoare_of_touches hp fun _ _ hf hI hP =>
      ⟨hI.frame hf (by simp) (by simp), hP.frame hf (by simp) (by simp)⟩
  exact hoare_bind (hlist (touches_select _ _)) fun _ =>
    hlist (touches_cachePut (by simp [CacheVal.slot]) _)

theorem keepsOff_save (hc : D c.id → c.enabled = false) :
    KeepsOff D c.save fun _ => True :=
  hoare_mono (hoare_save hc) (fun _ h => h) fun _ _ _ => trivial

/-! ### The writers of clients -/

theorem keepsOff_newSecret (data : AppState) (c : Client) (b : Bool) :
    KeepsOff D (c.newSecret data b) fun _ => True :=
  keepsOff_of_touches (Client.newSecret_touches data c b) (by simp) (by simp)

theorem keepsOff_sanitizeScopes (scps : List String) :
    KeepsOff D (Client.sanitizeScopes scps) fun _ => True :=
  keepsOff_of_touches (touches_bind Scope.findAll_touches fun _ => touches_ret _) (by simp)
    (by simp)

/-- An update: a client of `D` must not be enabled by it; afterwards the client is
disabled if the update asks for that. -/
theorem hoare_updateClient (data : AppState) (id : String) {req : UpdateClientRequest}
    (hreq : D req.id → req.enabled = false) :
    Hoare sem (ClientsOff D) (fun _ => True) (updateClient data id req) fun _ w =>
      ClientsOff (fun d => D d ∨ d = req.id ∧ req.enabled = false) w := by
  refine hoare_seq (keepsOff_find id) fun client _ => ?_
  refine hoare_seq (F := fun _ => client.id = req.id)
    (hoare_throwIf fun _ _ _ h => by simpa using h) fun _ hid => ?_
  refine hoare_seq (keepsOff_newSecret data client _) fun secret _ => ?_
  refine hoare_seq (keepsOff_sanitizeScopes _) fun scopes _ => ?_
  refine hoare_seq (keepsOff_sanitizeScopes _) fun defaultScopes _ => ?_
  refine hoare_bind (hoare_save (by simpa only [hid] using hreq)) fun _ => ?_
  refine hoare_ret fun w _ hw => ?_
  simpa only [hid] using hw

theorem keepsOff_generateNewSecret (data : AppState) (id : String) :
    KeepsOff D (generateNewSecret data id) fun _ => True := by
  refine hoare_seq (keepsOff_find id) fun client hclient => ?_
  refine hoare_seq (keepsOff_of_touches (Client.generateNewSecret_touches data) (by simp)
    (by simp)) fun ⟨clear, enc⟩ _ => ?_
  refine hoare_seq (keepsOff_save ?_) fun _ _ => hoare_ret fun _ _ _ => trivial
  exact fun hd => hclient.2 (hclient.1 ▸ hd)

theorem keepsOff_create (data : AppState) {req : NewClientRequest} (hreq : ¬ D req.id) :
    KeepsOff D (Client.create data req) fun _ => True := by
  refine hoare_seq (keepsOff_of_touches (Client.firstSecret_touches data _) (by simp) (by simp))
    fun ⟨secret, kid⟩ _ => ?_
  refine hoare_seq (F := fun _ => True) (hoare_execute fun w db hI _ hdb => ⟨?_, trivial⟩)
    fun _ _ => hoare_ret fun _ _ _ => trivial
  refine ⟨fun r hr hd => ?_, hI.entry⟩
  simp only [applyAll, DbWrite.apply] at hdb
  split at hdb
  · cases hdb
  · cases hdb
    simp only [Function.update_self] at hr
    rcases List.mem_append.mp hr with hr | hr
    · exact hI.row r hr hd
    · rw [List.mem_singleton.mp hr] at hd
      exact absurd hd hreq

theorem keepsOff_deleteClient (id : String) : KeepsOff D (deleteClient id) fun _ => True := by
  refine hoare_seq (F := fun _ => True) (hoare_throwIf fun _ _ _ _ => trivial) fun _ _ => ?_
  refine hoare_seq (keepsOff_find id) fun client _ => ?_
  have hexec := hoare_execute (I := ClientsOff D) (P := fun _ => True) (Q := fun _ _ => True)
    (l := Client.deleteStmts client.id)
    (by
      intro w db hI _ hdb
      refine ⟨⟨fun r hr hd => ?_, hI.entry⟩, trivial⟩
      have hr : r ∈ db .clients := hr
      rw [Client.deleteStmts_clients hdb] at hr
      exact hI.row r (List.mem_filter.mp hr).1 hd)
  refine hoare_seq hexec fun _ _ => keepsOff_of_touches (T := []) (K := []) ?_ (by simp)
    (by simp)
  exact touches_bind (touches_cacheDel _ _) fun _ => touches_runIf (touches_cacheDel _ _)

/-! ### The grants -/

theorem keepsOff_findMaybeEphemeral (data : AppState) (id : String) :
    KeepsOff D (Client.findMaybeEphemeral data id) fun _ => True := by
  unfold Client.findMaybeEphemeral
  split
  · exact hoare_mono (keepsOff_find id) (fun _ h => h) fun _ _ _ => trivial
  · refine keepsOff_of_touches (T := []) (K := [(.ephemeralClients, .client)])
      (touches_cached ?_ (by simp [CacheVal.slot])) (by simp) (by simp)
    refine touches_bind ⟨trivial, fun x => touches_answer x⟩ fun _ => ?_
    exact touches_bind (touches_throwIf _ _) fun _ => touches_ret _

/-- What is left of a grant when the client has been found. -/
theorem keepsOff_clientRest (data : AppState) (req : HttpRequest) (client : Client)
    (secret : Option String) (missing flow : String) :
    Touches grantTables grantSlots (do
      let headerOrigin ← answer (client.validateOrigin data req)
      checkSecret data client secret missing
      answer (client.validateFlow flow)
      let (fingerprint, headers) ← dpopFingerprint data req headerOrigin
      return (client, fingerprint, headers ++ originHeader headerOrigin)) := by
  refine touches_bind (touches_answer _) fun o => ?_
  refine touches_bind ((checkSecret_touches _ _ _ _).mono (by simp) (by simp)) fun _ => ?_
  refine touches_bind (touches_answer _) fun _ => ?_
  exact touches_bind (dpopFingerprint_grant _ _ _) fun _ => touches_ret _

theorem keepsOff_grantTypeCode (data : AppState) (req : HttpRequest) (reqData : TokenRequest) :
    KeepsOff D (grantTypeCode data req reqData) fun _ => True := by
  refine hoare_seq (F := fun _ => True) (hoare_okOr fun _ _ _ _ _ => trivial) fun idx _ => ?_
  refine hoare_seq (F := fun _ => True) (hoare_answer fun _ _ _ _ _ => trivial)
    fun ⟨clientId, secret⟩ _ => ?_
  have hclient : KeepsOff D (codeClient data req clientId secret) fun _ => True :=
    hoare_seq (hoare_mapErr (keepsOff_findMaybeEphemeral data clientId)) fun client _ =>
      keepsOff_grant (keepsOff_clientRest data req client secret _ _)
  refine hoare_seq hclient fun ⟨client, fp, headers⟩ _ => keepsOff_grant ?_
  refine touches_bind (touches_cacheGet _ _ _) fun found => ?_
  refine touches_bind (touches_okOr _ _) fun code => ?_
  refine touches_bind ((checkCode_touches _ _ _ _).mono (by simp) (by simp)) fun _ => ?_
  refine touches_bind (User.find_grant _) fun user => ?_
  refine touches_bind (TokenSet.fromUser_grant _ _ _ _ _ _ _ _) fun ts => ?_
  refine touches_bind ((updateCodeSession_touches code user).mono (by simp [grantTables])
    (by simp [grantSlots])) fun _ => ?_
  refine touches_bind (touches_cacheDel _ _) fun _ => ?_
  exact touches_bind client.updateUsed_grant fun _ => touches_ret _

theorem keepsOff_grantTypePassword (data : AppState) (req : HttpRequest)
    (reqData : TokenRequest) : KeepsOff D (grantTypePassword data req reqData) fun _ => True := by
  refine hoare_seq (F := fun _ => True) (hoare_okOr fun _ _ _ _ _ => trivial) fun email _ => ?_
  refine hoare_seq (F := fun _ => True) (hoare_okOr fun _ _ _ _ _ => trivial) fun password _ => ?_
  refine hoare_seq (F := fun _ => True) (hoare_answer fun _ _ _ _ _ => trivial)
    fun ⟨clientId, secret⟩ _ => ?_
  have hclient : KeepsOff D (passwordClient data req clientId secret) fun _ => True :=
    hoare_seq (keepsOff_find clientId) fun client _ =>
      keepsOff_grant (keepsOff_clientRest data req client secret _ _)
  refine hoare_seq hclient fun ⟨client, fp, headers⟩ _ => keepsOff_grant ?_
  refine touches_bind (touches_mapErr ((User.findByEmail_touches data email).mono (by simp)
    (by simp [grantSlots]))) fun user => ?_
  refine touches_bind (user.checkEnabled_touches.mono (by simp) (by simp)) fun _ => ?_
  refine touches_bind (user.checkExpired_touches.mono (by simp) (by simp)) fun _ => ?_
  refine touches_bind (touches_attempt ((user.validatePassword_touches data password).mono
    (by simp [grantTables]) (by simp))) fun r => ?_
  rcases r with e | u
  · exact touches_bind (passwordFailed_touches data user) fun _ => touches_fail _
  · exact passwordTokens_touches _ _ _ _ _ _

theorem keepsOff_grantTypeRefresh (data : AppState) (req : HttpRequest) (reqData : TokenRequest) :
    KeepsOff D (grantTypeRefresh data req reqData) fun _ => True := by
  refine hoare_seq (F := fun _ => True) (hoare_okOr fun _ _ _ _ _ => trivial) fun token _ => ?_
  refine hoare_seq (F := fun _ => True) (hoare_answer fun _ _ _ _ _ => trivial)
    fun ⟨clientId, secret⟩ _ => ?_
  refine hoare_seq (keepsOff_findMaybeEphemeral data clientId) fun client _ => keepsOff_grant ?_
  refine touches_bind (touches_answer _) fun o => ?_
  refine touches_bind ((checkSecret_touches _ _ _ _).mono (by simp) (by simp)) fun _ => ?_
  refine touches_bind (touches_answer _) fun _ => ?_
  exact touches_bind (validateRefreshToken_touches _ _ _ _) fun _ => touches_ret _

theorem keepsOff_grantTypeDeviceCode (data : AppState) (ip : Option String)
    (payload : TokenRequest) : KeepsOff D (grantTypeDeviceCode data ip payload) fun _ => True := by
  have hret : ∀ a : DeviceAnswer, KeepsOff D (ret a) fun _ => True :=
    fun _ => hoare_ret fun _ _ _ => trivial
  unfold grantTypeDeviceCode
  split
  · exact hret _
  refine hoare_seq (keepsOff_grant (touches_attempt
    ((DeviceAuthCode.findByDeviceCode_touches data _).mono (by simp) (by simp)))) fun found _ => ?_
  rcases found with e | - | code
  · exact hret _
  · exact hret _
  simp only
  split
  · exact hret _
  split
  · exact hret _
  split
  · exact hret _
  refine hoare_seq (keepsOff_grant touches_now) fun ms _ => ?_
  refine hoare_seq (keepsOff_grant ((checkPoll_touches data code ms).mono (by simp) (by simp)))
    fun ⟨code', error, description⟩ _ => ?_
  simp only
  split
  · refine hoare_seq (keepsOff_grant (touches_attempt (User.find_grant _))) fun user _ => ?_
    rcases user with e | user
    · exact hret _
    refine hoare_seq (F := fun _ => True) (hoare_mono (hoare_tried (keepsOff_find _))
      (fun _ h => h) fun _ _ _ => trivial) fun client _ => ?_
    rcases client with e | client
    · exact hret _
    · exact keepsOff_grant (issueDevice_touches _ _ _ _ _ _)
  · refine hoare_seq (keepsOff_grant (touches_ignoreErr
      ((DeviceAuthCode.save_touches data _).mono (by simp) (by simp [grantSlots])))) fun _ _ => ?_
    exact hret _

theorem keepsOff_grantTypeCredentials (data : AppState) (req : HttpRequest)
    (reqData : TokenRequest) :
    KeepsOff D (grantTypeCredentials data req reqData) fun _ => ∀ id secret,
      reqData.tryGetClientIdSecret data req = .ok (id, secret) → ¬ D id := by
  refine hoare_seq (F := fun _ => True) (hoare_throwIf fun _ _ _ _ => trivial) fun _ _ => ?_
  refine hoare_seq (F := fun x => reqData.tryGetClientIdSecret data req = .ok x)
    (hoare_answer fun _ _ _ _ h => h) fun ⟨clientId, secret⟩ hid => ?_
  refine hoare_seq (keepsOff_find clientId) fun client hclient => ?_
  refine hoare_seq (F := fun _ => True) (hoare_throwIf fun _ _ _ _ => trivial) fun _ _ => ?_
  refine hoare_seq (F := fun _ => ¬ D clientId)
    (hoare_throwIf fun _ _ _ hen hd => hen (hclient.2 hd)) fun _ hoff => ?_
  have hrest : ∀ x : TokenSet × Headers, ∀ id secret,
      reqData.tryGetClientIdSecret data req = .ok (id, secret) → ¬ D id := by
    intro _ id secret' h
    rw [hid] at h
    cases h
    exact hoff
  refine hoare_mono (keepsOff_grant (D := D) ?_) (fun _ h => h) fun x _ _ => hrest x
  refine touches_bind (touches_okOr _ _) fun s => touches_bind (touches_answer _) fun _ => ?_
  refine touches_bind (touches_answer _) fun _ => touches_bind (touches_answer _) fun o => ?_
  refine touches_bind (dpopFingerprint_grant _ _ _) fun _ => ?_
  refine touches_bind client.updateUsed_grant fun _ => ?_
  exact touches_bind ((TokenSet.forClientCredentials_touches _ _ _).mono (by simp)
    (by simp [grantSlots])) fun _ => touches_ret _

end Off

/-! ### Requests -/

/-- A request that writes clients, a token request, or a program that keeps disabled
clients disabled. -/
inductive ClientReq where
  | update (id : String) (req : UpdateClientRequest)
  | newSecret (id : String)
  | create (req : NewClientRequest)
  | delete (id : String)
  | token (req : HttpRequest) (reqData : TokenRequest)
  | other (p : M ErrorResponse Unit) (hp : ∀ D, KeepsOff D p fun _ => True)

namespace ClientReq

/-- What the endpoints run; only tokens are answered. -/
def prog (data : AppState) : ClientReq → M ErrorResponse (Option DeviceAnswer)
  | update id req => do let _ ← updateClient data id req; return none
  | newSecret id => do let _ ← generateNewSecret data id; return none
  | create req => do let _ ← Client.create data req; return none
  | delete id => do deleteClient id; return none
  | token req reqData => do return some (← postToken data req reqData)
  | other p _ => do p; return none

/-- The request sets `enabled` of the client. -/
def Enables : ClientReq → String → Prop
  | update _ req, c => req.id = c ∧ req.enabled = true
  | create req, c => req.id = c
  | _, _ => False

/-- The request clears `enabled` of the client. -/
def Disables : ClientReq → String → Prop
  | update _ req, c => req.id = c ∧ req.enabled = false
  | _, _ => False

instance (c : String) : (q : ClientReq) → Decidable (q.Enables c)
  | update _ req => inferInstanceAs (Decidable (req.id = c ∧ req.enabled = true))
  | create req => inferInstanceAs (Decidable (req.id = c))
  | newSecret _ => .isFalse id
  | delete _ => .isFalse id
  | token _ _ => .isFalse id
  | other _ _ => .isFalse id

instance (c : String) : (q : ClientReq) → Decidable (q.Disables c)
  | update _ req => inferInstanceAs (Decidable (req.id = c ∧ req.enabled = false))
  | create _ => .isFalse id
  | newSecret _ => .isFalse id
  | delete _ => .isFalse id
  | token _ _ => .isFalse id
  | other _ _ => .isFalse id

end ClientReq

/-- The client that a token request is for: the one of the device code, or the one that
the header or the body names. -/
def TokenRequest.IsFor (data : AppState) (req : HttpRequest) (reqData : TokenRequest)
    (c : String) : Prop :=
  if reqData.grantType = grantTypeDeviceCodeName then reqData.clientId = some c
  else ∃ secret, reqData.tryGetClientIdSecret data req = .ok (c, secret)

abbrev ClientOutcome := Except (Fault ErrorResponse) (Option DeviceAnswer)

abbrev ClientEvent := Event ClientReq Op Op.Res ClientOutcome

abbrev ClientLog := Log ClientReq Op Op.Res ClientOutcome

/-- The client has been disabled by an update that returned `Ok`, and no request to
enable it has come in since. -/
def Off (c : String) : ClientLog → Prop
  | [] => False
  | .start _ q :: l => ¬ q.Enables c ∧ Off c l
  | .op _ _ _ :: l => Off c l
  | .done t r :: l => Off c l ∨ (∃ a, r = .ok a) ∧ ∃ q, .start t q ∈ l ∧ q.Disables c

/-- The request `t` is one that disables the client. -/
def startsDisabling (t : ℕ) (c : String) (l : ClientLog) : Bool :=
  l.any fun
    | .start t' q => t' == t && decide (q.Disables c)
    | _ => false

theorem startsDisabling_iff {t : ℕ} {c : String} {l : ClientLog} :
    startsDisabling t c l = true ↔ ∃ q, .start t q ∈ l ∧ q.Disables c := by
  rw [startsDisabling, List.any_eq_true]
  constructor
  · rintro ⟨e, he, hq⟩
    cases e with
    | start t' q =>
        obtain ⟨ht, hd⟩ := Bool.and_eq_true_iff.mp hq
        rw [beq_iff_eq] at ht
        exact ⟨q, ht ▸ he, of_decide_eq_true hd⟩
    | op _ _ _ => cases hq
    | done _ _ => cases hq
  · rintro ⟨q, hq, hd⟩
    exact ⟨_, hq, by simp [hd]⟩

instance Off.decidable (c : String) : (l : ClientLog) → Decidable (Off c l)
  | [] => .isFalse id
  | .start _ q :: l =>
      have := Off.decidable c l
      inferInstanceAs (Decidable (¬ q.Enables c ∧ Off c l))
  | .op _ _ _ :: l => Off.decidable c l
  | .done _ (.error _) :: l =>
      have := Off.decidable c l
      decidable_of_iff (Off c l) (by simp [Off])
  | .done t (.ok _) :: l =>
      have := Off.decidable c l
      decidable_of_iff (Off c l ∨ startsDisabling t c l = true) (by
        simp [Off, startsDisabling_iff])

/-- Requests come one after the other, and a token request for a disabled client is one
for `client_credentials`. -/
def CredentialsIfOff (data : AppState) (w : World) (l : ClientLog) (e : ClientEvent) : Prop :=
  OneByOne w l e ∧ ∀ t req reqData c, e = .start t (.token req reqData) →
    reqData.IsFor data req c → Off c l → reqData.grantType = "client_credentials"

/-- The event is not the answer of a token request for a disabled client with tokens. -/
def NoTokensIfOff (data : AppState) (e : ClientEvent) (l : ClientLog) : Prop :=
  ∀ t ts req reqData c, e = .done t (.ok (some (.ok ts))) → .start t (.token req reqData) ∈ l →
    reqData.IsFor data req c → ¬ Off c l

theorem off_ops {c : String} {t : ℕ} {evs l : ClientLog} (h : OpsOf t evs) :
    Off c (evs ++ l) ↔ Off c l := by
  induction evs with
  | nil => rfl
  | cons e evs ih =>
      obtain ⟨o, x, rfl⟩ := h e (by simp)
      exact ih fun e he => h e (by simp [he])

/-! ### Every run -/

section Requests

variable {D : String → Prop}

theorem keepsOff_postToken (data : AppState) (req : HttpRequest) (reqData : TokenRequest) :
    KeepsOff D (postToken data req reqData) fun _ =>
      reqData.grantType = "client_credentials" → ∀ c, reqData.IsFor data req c → ¬ D c := by
  unfold postToken
  split
  · next hdev =>
      refine hoare_mono (keepsOff_grantTypeDeviceCode data _ reqData) (fun _ h => h) ?_
      intro _ _ _ hcred
      rw [hdev] at hcred
      exact absurd hcred (by decide)
  · next hdev =>
      have hset : KeepsOff D (getTokenSet data req reqData) fun _ =>
          reqData.grantType = "client_credentials" → ∀ c, reqData.IsFor data req c → ¬ D c := by
        unfold getTokenSet
        split
        · next hcode =>
            refine hoare_mono (keepsOff_grantTypeCode data req reqData) (fun _ h => h) ?_
            intro _ _ _ hcred
            rw [hcode] at hcred
            exact absurd hcred (by decide)
        split
        · refine hoare_mono (keepsOff_grantTypeCredentials data req reqData) (fun _ h => h) ?_
          intro _ _ hoff _ c hc
          simp only [TokenRequest.IsFor, hdev, if_false] at hc
          obtain ⟨secret, hid⟩ := hc
          exact hoff c secret hid
        · next hcred =>
            split
            · exact hoare_mono (keepsOff_grantTypePassword data req reqData) (fun _ h => h)
                fun _ _ _ h => absurd h hcred
            split
            · exact hoare_mono (keepsOff_grantTypeRefresh data req reqData) (fun _ h => h)
                fun _ _ _ h => absurd h hcred
            · exact hoare_fail
      exact hoare_seq hset fun _ h => hoare_ret fun _ _ _ => h

/-- A request keeps the clients disabled that it does not enable, and adds those that it
disables. -/
theorem hoare_clientReq (data : AppState) (q : ClientReq) (hq : ∀ d, D d → ¬ q.Enables d) :
    Hoare sem (ClientsOff D) (fun _ => True) (q.prog data) fun _ w =>
      ClientsOff (fun d => D d ∨ q.Disables d) w := by
  -- requests that disable no client
  have hkeep : ∀ {α : Type} {p : M ErrorResponse α} {F : α → Prop}
      {f : α → Option DeviceAnswer}, KeepsOff D p F → (∀ d, ¬ q.Disables d) →
      Hoare sem (ClientsOff D) (fun _ => True) (p >>= fun a => ret (f a)) fun _ w =>
        ClientsOff (fun d => D d ∨ q.Disables d) w := by
    intro α p F f hp hno
    refine hoare_seq hp fun a _ => hoare_ret fun w hI _ => hI.mono fun d hd => ?_
    exact hd.resolve_right (hno d)
  cases q with
  | update id req =>
      have hreq : D req.id → req.enabled = false := by
        intro hd
        by_contra hen
        exact hq _ hd ⟨rfl, by simpa using hen⟩
      refine hoare_bind (hoare_updateClient data id hreq) fun _ => hoare_ret fun w _ hw => ?_
      exact hw.mono fun d hd => Or.imp_right (fun h => ⟨h.1.symm, h.2⟩) hd
  | newSecret id => exact hkeep (keepsOff_generateNewSecret data id) fun _ h => h
  | create req => exact hkeep (keepsOff_create data fun hd => hq _ hd rfl) fun _ h => h
  | delete id => exact hkeep (keepsOff_deleteClient id) fun _ h => h
  | token req reqData => exact hkeep (keepsOff_postToken data req reqData) fun _ h => h
  | other p hp => exact hkeep (hp D) fun _ h => h

end Requests

/-- **A disabled client gets no tokens**, whatever its codes, devices and refresh tokens
are from, if only `client_credentials` requests come in for it. -/
theorem no_tokens_for_disabled_client (data : AppState) {w₀ : World} (hw : ClientsKeyed w₀)
    {P : Pool ClientReq Op Op.Res World (Fault ErrorResponse) (Option DeviceAnswer)}
    (h : Run (ClientReq.prog data) sem (CredentialsIfOff data) (init w₀) P) :
    Log.Always (NoTokensIfOff data) P.log := by
  refine Run.sequential_always (I := fun w l => ClientsOff (Off · l) w) hw
    (fun _ _ _ hC => hC.1) (by intro _ _ _ _ _ _ _ _ h; cases h)
    (by intro _ _ _ _ _ _ _ _ _ h; cases h) ?_ h
  intro w l t q r w' l' hI hf hC hx _
  obtain ⟨hexec, evs, hevs, hl⟩ := exec_logged hx
  simp only at hexec hl
  -- the clients that are disabled while the request runs
  have hD : ClientsOff (Off · (.start t q :: l)) w := hI.mono fun _ h => h.2
  have hq : ∀ d, Off d (.start t q :: l) → ¬ q.Enables d := fun _ h => h.1
  have hoff : ∀ d, Off d l' ↔ Off d (.start t q :: l) := by
    intro d
    rw [hl]
    exact off_ops hevs
  have hstart : ∀ q', .start t q' ∈ l' ↔ q' = q := by
    intro q'
    rw [hl, hevs.start_mem, start_mem_fresh hf]
  obtain ⟨hI', hdis⟩ := hoare_clientReq data q hq w r w' hD trivial hexec
  refine ⟨?_, ?_⟩
  · rcases r with e | a
    · refine hI'.mono fun d hd => (hoff d).mp (hd.resolve_right ?_)
      rintro ⟨⟨a, ha⟩, -⟩
      cases ha
    · refine (hdis a rfl).mono fun d hd => hd.imp (hoff d).mp ?_
      rintro ⟨-, q', hq', hd'⟩
      rwa [← (hstart q').mp hq']
  · rintro t' ts req reqData c heq hs hfor hc
    cases heq
    obtain rfl := (hstart _).mp hs
    have hc' := (hoff c).mp hc
    have hcred := hC.2 t req reqData c rfl hfor hc'.2
    obtain ⟨a, w₁, hpost, hret, rfl⟩ := exec_bind_ok.mp hexec
    cases hret
    obtain ⟨-, hnone⟩ := keepsOff_postToken data req reqData w _ w' hD trivial hpost
    exact hnone _ rfl hcred c hfor hc'

/-! ### A disabled client -/

/-- `PUT /clients/app` that disables the client. -/
def disableApp (confidential : Bool) : ClientReq :=
  .update "app" { (default : UpdateClientRequest) with
    id := "app"
    confidential
    flowsEnabled := ["authorization_code", "client_credentials"]
    accessTokenAlg := "EdDSA"
    idTokenAlg := "EdDSA"
    accessTokenLifetime := 1800
    scopes := ["openid"]
    defaultScopes := ["openid"] }

/-- The update returns `Ok`. -/
def disableMoves (confidential : Bool) : List (Move ClientReq Choice) :=
  [.start 0 (disableApp confidential)] ++ List.replicate 9 (.op 0 .ok) ++ [.done 0]

/-- The world of the code, with a row for the client. -/
def clientWorld (c : Client) : World :=
  { codeWorld with
    db := fun
      | .clients => [c]
      | t => codeWorld.db t
    cache := fun
      | .c12hr, "client_app" => some (.client c)
      | n, k => codeWorld.cache n k }

theorem clientsKeyed_clientWorld {c : Client} (hc : c.id = "app") :
    ClientsKeyed (clientWorld c) where
  row _ _ h := h.elim
  entry k c' hk := by
    refine ⟨?_, False.elim⟩
    suffices hkey : Client.getCacheEntry k = "client_app" ∧ c' = c by
      rw [hkey.2, hc]
      exact (Client.getCacheEntry_inj.mp (hkey.1.trans (by decide : _ =
        Client.getCacheEntry "app"))).symm
    simp only [clientWorld] at hk
    split at hk
    · next heq => cases hk; exact ⟨by assumption, rfl⟩
    · next hne =>
        simp only [codeWorld] at hk
        split at hk
        · next hcode _ => cases hcode
        · next heq => exact absurd heq (hne rfl)
        · cases hk
        · next hcode _ => cases hcode
        · cases hk

/-- The client as a confidential one. -/
def secretClient : Client :=
  { sampleClient with confidential := true, secret := some (Text.asBytes "secret") }

def credentialsReq : ClientReq :=
  .token default { (default : TokenRequest) with
    grantType := "client_credentials", clientId := some "app", clientSecret := some "secret" }

/-- `CredentialsIfOff`, for all clients alike, as a test of one event. -/
def credentialsOnly (w : World) (l : ClientLog) (e : ClientEvent) : Bool :=
  decide (OneByOne w l e) &&
    match e with
    | .start _ (.token _ reqData) => reqData.grantType = "client_credentials"
    | _ => true

theorem credentialsIfOff_of_credentialsOnly (data : AppState) (w : World) (l : ClientLog)
    (e : ClientEvent) (h : credentialsOnly w l e = true) : CredentialsIfOff data w l e := by
  obtain ⟨hone, hgrant⟩ := Bool.and_eq_true_iff.mp h
  refine ⟨of_decide_eq_true hone, ?_⟩
  rintro t req reqData c rfl - -
  exact of_decide_eq_true hgrant

theorem no_tokens_for_disabled_client_app :
    ∃ P, Run (ClientReq.prog sampleState) sem (CredentialsIfOff sampleState)
        (init (clientWorld secretClient)) P ∧
      Log.doneOf 0 P.log = some (.ok none) ∧
      Log.doneOf 1 P.log = some (.error (err .badRequest "client is disabled")) ∧
      Log.Always (NoTokensIfOff sampleState) P.log := by
  obtain ⟨P, hrun, hcheck⟩ := exists_run_of_moves (ClientReq.prog sampleState) Op.run
    credentialsOnly (clientWorld secretClient)
    (disableMoves true ++ [.start 1 credentialsReq, .op 1 .ok, .done 1])
    (fun P => decide (Log.doneOf 0 P.log = some (.ok none) ∧
      Log.doneOf 1 P.log = some (.error (err .badRequest "client is disabled"))))
    (by decide +kernel) (credentialsIfOff_of_credentialsOnly sampleState)
  obtain ⟨h₀, h₁⟩ := of_decide_eq_true hcheck
  exact ⟨P, hrun, h₀, h₁,
    no_tokens_for_disabled_client sampleState (clientsKeyed_clientWorld rfl) hrun⟩

/-- The code is redeemed. -/
def redeemsSample : ClientReq → Bool
  | .token req reqData => req = codeReq.req && reqData = codeReq.reqData
  | _ => false

/-- The client is disabled, and its code is redeemed. -/
theorem tokens_for_disabled_client :
    ¬ ∀ (data : AppState) (w₀ : World)
        (P : Pool ClientReq Op Op.Res World (Fault ErrorResponse) (Option DeviceAnswer)),
      ClientsKeyed w₀ → Run (ClientReq.prog data) sem OneByOne (init w₀) P →
      Log.Always (NoTokensIfOff data) P.log := by
  intro h
  obtain ⟨P, hrun, hcheck⟩ := exists_run_of_moves (C := OneByOne) (ClientReq.prog sampleState)
    Op.run (fun w l e => decide (OneByOne w l e)) (clientWorld sampleClient)
    (disableMoves false ++ .start 1 (.token codeReq.req codeReq.reqData) ::
      .op 1 .ok :: .op 1 .ok :: redeemMoves 1)
    (fun P => decide (Log.justDone P.log = some (1, .ok (some (.ok codeTokens))) ∧
        Off "app" P.log.tail) && (Log.startOf 1 P.log.tail).any redeemsSample)
    (by decide +kernel) (fun _ _ _ h => of_decide_eq_true h)
  obtain ⟨hdone, hstart⟩ := Bool.and_eq_true_iff.mp hcheck
  obtain ⟨hdone, hoff⟩ := of_decide_eq_true hdone
  have hlog := Log.eq_of_justDone hdone
  have halways := h sampleState _ P (clientsKeyed_clientWorld rfl) hrun
  rw [hlog] at halways
  obtain ⟨q, hq, hredeems⟩ := (Option.any_eq_true _ _).mp hstart
  cases q with
  | token req reqData =>
      obtain ⟨hreq, hdata⟩ := Bool.and_eq_true_iff.mp hredeems
      rw [of_decide_eq_true hreq, of_decide_eq_true hdata] at hq
      exact halways.1 1 codeTokens _ _ "app" rfl (Log.mem_of_startOf hq) ⟨none, rfl⟩ hoff
  | _ => cases hredeems

end Rauthy
