/-
Rauthy/DynamicClients.lean

Clients that have registered themselves: what is left of their settings when they update
themselves, and which of them the scheduler cleans up.

`update_dynamic` builds a client anew from the request and copies some values of the stored one
over.  The others are reset, and a confidential client gets a new secret each time.
`dynamic_client_cleanup` looks for clients with `last_used = null`, which in SQL is true of no
row.

Main results:
  * `updated_keeps_iff`: when an update keeps what the request does not carry;
  * `cleanup_exact_iff`: the scheduler cleans up the right clients iff there are none to clean up.
-/
import Rauthy.Transactions

namespace Rauthy

open Prog

/-! ### Updates -/

/-- The client with the metadata of the request. -/
def DynamicClientRequest.metadata (req : DynamicClientRequest) (c : Client) : Client := { c with
  name := req.clientName
  confidential := decide (req.tokenEndpointAuthMethod ≠ some "none")
  redirectUris := Text.join "," req.redirectUris
  postLogoutRedirectUris := req.postLogoutRedirectUri
  flowsEnabled := Text.join "," req.grantTypes
  accessTokenAlg := (req.tokenEndpointAuthSigningAlg.getD .edDSA).asStr
  idTokenAlg := (req.idTokenSignedResponseAlg.getD .edDSA).asStr
  refreshToken := decide ("refresh_token" ∈ req.grantTypes)
  challenge := if req.tokenEndpointAuthMethod ≠ some "none" then some "S256" else none
  clientUri := req.clientUri
  contacts := req.contacts.map (Text.join ",") }

/-- The client `c` has become `c'`: only the metadata has changed, and the secret if secrets are
rotated. -/
structure MetadataOnly (data : AppState) (req : DynamicClientRequest) (c c' : Client) : Prop where
  metadata : { c' with secret := c.secret, secretKid := c.secretKid } = req.metadata c
  secret : data.dynClientSecretAutoRotate = false → c'.secret = c.secret

/-- What an update resets is as it is reset to, and there is no secret to lose. -/
structure NothingToLose (data : AppState) (req : DynamicClientRequest) (c : Client) : Prop where
  enabled : c.enabled = true
  allowedOrigins : c.allowedOrigins = none
  authCodeLifetime : c.authCodeLifetime = 60
  accessTokenLifetime : c.accessTokenLifetime = data.dynClientDefaultTokenLifetime
  secret : data.dynClientSecretAutoRotate = false →
    req.tokenEndpointAuthMethod = some "none" ∧ c.secret = none

/-- The client is in the table, and a cached copy is the same. -/
structure InTable (w : World) (c : Client) : Prop where
  row : c ∈ w.db .clients
  unique : UniqueKey Client.id (w.db .clients)
  cached : ∀ v, w.cache .c12hr (Client.getCacheEntry c.id) = some v → v = .client c

/-- The secret of the client has been drawn at random. -/
def SecretIssued (data : AppState) (w : World) (c : Client) : Prop :=
  ∀ s, c.secret = some s → ∃ x ∈ w.issued, data.decrypt s = .ok (Text.asBytes x)

/-- The client that `try_from_dyn_reg` builds has the settings of a new one. -/
structure Fresh (data : AppState) (req : DynamicClientRequest) (w : World) (new : Client) : Prop where
  settings : ∀ c : Client, { new with
      id := c.id, forceMfa := c.forceMfa, scopes := c.scopes, defaultScopes := c.defaultScopes,
      secret := c.secret, secretKid := c.secretKid } =
    { req.metadata c with
      enabled := true, allowedOrigins := none, authCodeLifetime := 60,
      accessTokenLifetime := data.dynClientDefaultTokenLifetime }
  noSecret : req.tokenEndpointAuthMethod = some "none" → new.secret = none
  newSecret : req.tokenEndpointAuthMethod ≠ some "none" → ∃ s, new.secret = some s ∧
    ∀ x ∈ w.issued, data.decrypt s ≠ .ok (Text.asBytes x)

section Update

variable {data : AppState} {req : DynamicClientRequest} {clientDyn : ClientDyn} {w w' : World}
  {c new current : Client}

theorem exec_generateNewSecret {plain : String} {enc : Bytes}
    (hdecrypt : ∀ b e, data.encrypt b = .ok e → data.decrypt e = .ok b)
    (h : Exec sem (Client.generateNewSecret data) w (.ok (plain, enc)) w') :
    ∀ x ∈ w.issued, data.decrypt enc ≠ .ok (Text.asBytes x) := by
  obtain ⟨rnd, w₁, hrand, h⟩ := exec_bind_ok.mp h
  obtain ⟨e, w₂, henc, hret, -⟩ := exec_bind_ok.mp h
  obtain ⟨_, hval, hstep⟩ := exec_op.mp hrand
  cases hval
  obtain ⟨hfresh, -⟩ := sem_getRand.mp hstep
  obtain ⟨henc, -⟩ := exec_answer.mp henc
  cases hret
  intro x hx hsame
  rw [hdecrypt _ _ henc] at hsame
  have hrnd : plain = x := Text.asBytes_inj (Except.ok.inj hsame)
  exact hfresh (hrnd ▸ hx)

theorem exec_tryFromDynReg (hdecrypt : ∀ b e, data.encrypt b = .ok e → data.decrypt e = .ok b)
    (h : Exec sem (Client.tryFromDynReg data req) w (.ok new) w') : Fresh data req w new := by
  obtain ⟨rnd, w₁, hrand, h⟩ := exec_bind_ok.mp h
  obtain ⟨⟨secret, kid⟩, w₂, hsecret, hret, -⟩ := exec_bind_ok.mp h
  obtain ⟨_, -, hstep⟩ := exec_op.mp hrand
  obtain ⟨-, -, -, rfl⟩ := sem_getRand.mp hstep
  cases hret
  refine ⟨fun c => rfl, fun hnone => ?_, fun hsome => ?_⟩
  · have hpublic : decide (req.tokenEndpointAuthMethod ≠ some "none") = false := by
      rw [hnone]
      rfl
    rw [hpublic] at hsecret
    obtain ⟨hval, -⟩ := hsecret
    exact (Prod.mk.inj (Except.ok.inj hval)).1
  · rw [show decide (req.tokenEndpointAuthMethod ≠ some "none") = true from decide_eq_true hsome]
      at hsecret
    obtain ⟨⟨plain, enc⟩, w₃, hnew, hval, -⟩ := exec_bind_ok.mp hsecret
    refine ⟨enc, (Prod.mk.inj (Except.ok.inj hval)).1, fun x hx => ?_⟩
    exact exec_generateNewSecret hdecrypt hnew x (List.mem_cons_of_mem _ hx)

theorem InTable.find (hc : InTable w c) (h : Exec sem (Client.find c.id) w (.ok current) w') :
    current = c := by
  obtain ⟨x, w₁, hget, hrest⟩ := exec_bind_ok.mp h
  rcases exec_cacheGet.mp hget with ⟨rfl, hw₁⟩ | ⟨a, v, rfl, hv, ha, rfl⟩
  · obtain ⟨row, w₂, hrow, hrest⟩ := exec_bind_ok.mp hrest
    obtain ⟨_, _, -, hret, -⟩ := exec_bind_ok.mp hrest
    cases hret
    obtain ⟨hmem, hid⟩ := List.mem_filter.mp (List.mem_of_head? (exec_fetchOne.mp hrow).1)
    have hdb : w₁.db = w.db := by rcases hw₁ with rfl | ⟨-, rfl⟩ <;> rfl
    rw [hdb] at hmem
    exact hc.unique.inj hmem hc.row (beq_iff_eq.mp hid)
  · have hret : current = a := Except.ok.inj (exec_ret.mp hrest).1
    rw [hc.cached v hv] at ha
    exact hret.trans (Option.some.inj ha).symm

/-- The client after an update. -/
structure UpdatedTo (data : AppState) (req : DynamicClientRequest) (c c' : Client) (w w' : World) :
    Prop where
  rows : w'.db .clients = replaceRow Client.id c' (w.db .clients)
  built : ∃ new, Fresh data req w new ∧ c' = { new with
    id := c.id, forceMfa := c.forceMfa, scopes := c.scopes, defaultScopes := c.defaultScopes }

/-- The statement of a save, and one about the dynamic clients. -/
theorem InTable.saved {c' : Client} {stmt : DbWrite} {db' : Db} (hc : InTable w c)
    (h : applyAll [c'.saveStmt, stmt] w.db = some db') (hid : c'.id = c.id)
    (hstmt : stmt.table ≠ .clients) :
    db' .clients = replaceRow Client.id c' (w.db .clients) := by
  have hupd : ({ c' with id := c.id } : Client) = c' := by rw [← hid]
  have hrow : updateRow Client.id (fun c r => { c with id := r.id }) (w.db .clients) c' =
      replaceRow Client.id c' (w.db .clients) := updateRow_eq hc.unique hc.row hid hupd
  rw [← hrow]
  obtain ⟨db₁, h₁, hrest⟩ := Option.bind_eq_some_iff.mp h
  rw [Client.sets_saveStmt c' w.db] at h₁
  rw [applyAll_frame hrest (by simpa using hstmt), ← Option.some.inj h₁]
  exact Function.update_self ..

theorem ClientDyn.update_ok {slf slf' : ClientDyn} {method : String} {stmt : DbWrite}
    (h : Exec sem (slf.update data method) w (.ok (slf', stmt)) w') : stmt.table = .clientsDyn := by
  obtain ⟨_, _, -, h⟩ := exec_bind_ok.mp h
  obtain ⟨_, _, -, h⟩ := exec_bind_ok.mp h
  obtain ⟨_, _, -, h⟩ := exec_bind_ok.mp h
  obtain ⟨_, _, -, hret, -⟩ := exec_bind_ok.mp h
  cases hret
  rfl

/-- **What an update does**: it fails and leaves the clients alone, or it writes the new client. -/
theorem updateDynamic_outcome
    (hdecrypt : ∀ b e, data.encrypt b = .ok e → data.decrypt e = .ok b) (hid : clientDyn.id = c.id)
    (hc : InTable w c) : Outcomes sem (Client.updateDynamic data req clientDyn) w fun r w' =>
      (w'.db = w.db ∧ ∃ e, r = .error e) ∨ ∃ c', UpdatedTo data req c c' w w' := by
  refine outcomes_bind fun r w₁ hnew => ?_
  have hframe₁ := (Client.tryFromDynReg_touches data req).frame hnew
  have h₁ : w₁.db = w.db := db_of_touches (Client.tryFromDynReg_touches data req) hnew
  rcases r with e | new
  · exact .inl ⟨h₁, e, rfl⟩
  have hfresh := exec_tryFromDynReg hdecrypt hnew
  refine outcomes_bind fun r w₂ hfind => ?_
  have h₂ : w₂.db = w.db := (db_of_touches (Client.find_touches _) hfind).trans h₁
  rcases r with e | current
  · exact .inl ⟨h₂, e, rfl⟩
  have hc₁ : InTable w₁ c := by
    refine ⟨h₁ ▸ hc.row, h₁ ▸ hc.unique, fun v hv => ?_⟩
    exact hc.cached v ((hframe₁.cache _ _ v hv).resolve_right (by simp))
  rw [hid] at hfind
  obtain rfl := hc₁.find hfind
  refine outcomes_bind (outcomes_throwIf (fun _ => ?_) fun _ => .inl ⟨h₂, _, rfl⟩)
  refine outcomes_bind fun r w₃ hsave => ?_
  have h₃ : w₃.db = w.db := (db_of_touches (Client.saveTxn_touches _) hsave).trans h₂
  rcases r with e | stmt
  · exact .inl ⟨h₃, e, rfl⟩
  obtain ⟨rfl, -⟩ := Client.saveTxn_ok hsave
  refine outcomes_bind fun r w₄ hupdate => ?_
  have h₄ : w₄.db = w.db := (db_of_touches (ClientDyn.update_touches ..) hupdate).trans h₃
  rcases r with e | ⟨slf, stmt⟩
  · exact .inl ⟨h₄, e, rfl⟩
  have hstmt : stmt.table ≠ .clients := by
    rw [ClientDyn.update_ok hupdate]
    decide
  refine outcomes_bind (outcomes_executeAll (fun e => .inl ⟨h₄, _, rfl⟩) fun r db hdb => ?_)
  rw [h₄] at hdb
  have hrows := hc.saved hdb rfl hstmt
  have hdone : ∀ w', w'.db = db → ∃ c', UpdatedTo data req current c' w w' := by
    rintro w' rfl
    exact ⟨_, hrows, new, hfresh, rfl⟩
  rcases r with e | u
  · exact .inr (hdone _ rfl)
  · exact outcomes_answer (fun _ _ => .inr (hdone _ rfl)) fun _ _ => .inr (hdone _ rfl)

/-- A new client with the old values that are kept has lost nothing. -/
theorem metadataOnly_iff (hissued : SecretIssued data w c) (hnew : Fresh data req w new) :
    MetadataOnly data req c { new with
      id := c.id, forceMfa := c.forceMfa, scopes := c.scopes, defaultScopes := c.defaultScopes } ↔
    NothingToLose data req c := by
  have hsettings := hnew.settings c
  constructor
  · intro h
    have hmeta := h.metadata
    rw [hsettings] at hmeta
    refine ⟨?_, ?_, ?_, ?_, fun hrotate => ?_⟩
    · exact (congrArg Client.enabled hmeta).symm
    · exact (congrArg Client.allowedOrigins hmeta).symm
    · exact (congrArg Client.authCodeLifetime hmeta).symm
    · exact (congrArg Client.accessTokenLifetime hmeta).symm
    · have hsecret : new.secret = c.secret := h.secret hrotate
      by_cases hmethod : req.tokenEndpointAuthMethod = some "none"
      · exact ⟨hmethod, hsecret ▸ hnew.noSecret hmethod⟩
      · -- the new secret is another one than the old
        obtain ⟨s, hs, hother⟩ := hnew.newSecret hmethod
        obtain ⟨x, hx, hold⟩ := hissued s (hsecret ▸ hs)
        exact absurd hold (hother x hx)
  · intro h
    refine ⟨?_, fun hrotate => ?_⟩
    · show ({ new with
          id := c.id, forceMfa := c.forceMfa, scopes := c.scopes, defaultScopes := c.defaultScopes,
          secret := c.secret, secretKid := c.secretKid } : Client) = _
      rw [hsettings, ← h.enabled, ← h.allowedOrigins, ← h.authCodeLifetime,
        ← h.accessTokenLifetime]
      rfl
    · obtain ⟨hmethod, hsecret⟩ := h.secret hrotate
      rw [hsecret]
      exact hnew.noSecret hmethod

/-- **When an update keeps what the request does not carry**: an update that does not fail before
its commit changes the metadata only iff the client has the settings of a new one and, unless
secrets are rotated, no secret. -/
theorem updated_keeps_iff
    (hdecrypt : ∀ b e, data.encrypt b = .ok e → data.decrypt e = .ok b) (hid : clientDyn.id = c.id)
    (hc : InTable w c) (hissued : SecretIssued data w c)
    {r : Except (Fault ErrorResponse) DynamicClientResponse}
    (h : Exec sem (Client.updateDynamic data req clientDyn) w r w') :
    (w'.db .clients = w.db .clients ∧ ∃ e, r = .error e) ∨
    ∃ c', c'.id = c.id ∧ w'.db .clients = replaceRow Client.id c' (w.db .clients) ∧
      (MetadataOnly data req c c' ↔ NothingToLose data req c) := by
  rcases updateDynamic_outcome hdecrypt hid hc r w' h with ⟨hdb, he⟩ | ⟨c', hrows, new, hnew, rfl⟩
  · exact .inl ⟨congrFun hdb _, he⟩
  · refine .inr ⟨_, ?_, hrows, metadataOnly_iff hissued hnew⟩
    rfl

end Update

def dynamicClient : Client := { sampleClient with id := "dyn$app" }

def dynamicRow : ClientDyn := ⟨"dyn$app", 0, none, [], "none"⟩

/-- A client registers nothing but its redirect URI. -/
def publicRequest : DynamicClientRequest :=
  { redirectUris := ["https://app/callback"], grantTypes := ["authorization_code"],
    clientName := none, clientUri := none, contacts := none, idTokenSignedResponseAlg := none,
    tokenEndpointAuthMethod := some "none", tokenEndpointAuthSigningAlg := none,
    postLogoutRedirectUri := none }

/-- A client and its dynamic registration. -/
def registeredWorld (c : Client) (d : ClientDyn) : World where
  clock := 0
  issued := []
  db
    | .clients => [c]
    | .clientsDyn => [d]
    | _ => []
  cache _ _ := none

theorem inTable_registeredWorld (c : Client) (d : ClientDyn) :
    InTable (registeredWorld c d) c :=
  ⟨List.mem_singleton_self c, List.nodup_singleton _, fun _ h => by cases h⟩

theorem restores_sampleState (b e : Bytes) (h : sampleState.encrypt b = .ok e) :
    sampleState.decrypt e = .ok b := by
  cases h
  rfl

def updateChoices : List Choice :=
  [.rand "aaaaaaaaaaaaaaaa", .ok, .ok, .ok, .ok, .ok, .ok, .ok, .time 1000,
    .rand (String.ofList (List.replicate 64 'r')), .ok, .ok, .ok]

theorem updated_keeps_iff_default : ∃ r w', Exec sem
    (Client.updateDynamic sampleState publicRequest dynamicRow)
    (registeredWorld dynamicClient dynamicRow) r w' ∧ ∃ c', c'.id = "dyn$app" ∧
    MetadataOnly sampleState publicRequest dynamicClient c' := by
  obtain ⟨r, w', hx, hr⟩ := Pool.exists_exec_of_choices Op.run
    (Client.updateDynamic sampleState publicRequest dynamicRow) updateChoices
    (registeredWorld dynamicClient dynamicRow) (fun r _ => r.isOk) (by decide +kernel)
  have hissued : SecretIssued sampleState (registeredWorld dynamicClient dynamicRow)
      dynamicClient := by
    intro s hs
    cases hs
  have hupdate : (w'.db .clients = [dynamicClient] ∧ ∃ e, r = .error e) ∨
      ∃ c', c'.id = dynamicClient.id ∧ w'.db .clients = replaceRow Client.id c' [dynamicClient] ∧
        (MetadataOnly sampleState publicRequest dynamicClient c' ↔
          NothingToLose sampleState publicRequest dynamicClient) :=
    updated_keeps_iff restores_sampleState rfl (inTable_registeredWorld _ _) hissued hx
  refine ⟨r, w', hx, ?_⟩
  rcases hupdate with ⟨-, e, rfl⟩ | ⟨c', hid, -, hiff⟩
  · cases hr
  · exact ⟨c', hid, hiff.mpr ⟨rfl, rfl, rfl, rfl, fun h => by cases h⟩⟩

/-- A client that an admin has disabled updates itself and is enabled. -/
theorem update_enables_client :
    ¬ ∀ (data : AppState) (req : DynamicClientRequest) (clientDyn : ClientDyn) (w w' : World)
      (c : Client) (resp : DynamicClientResponse),
      (∀ b e, data.encrypt b = .ok e → data.decrypt e = .ok b) → clientDyn.id = c.id →
      InTable w c → SecretIssued data w c →
      Exec sem (Client.updateDynamic data req clientDyn) w (.ok resp) w' →
      ∃ c' ∈ w'.db .clients, c'.id = c.id ∧ MetadataOnly data req c c' := by
  intro hall
  let disabled : Client := { dynamicClient with enabled := false }
  obtain ⟨r, w', hx, hr⟩ := Pool.exists_exec_of_choices Op.run
    (Client.updateDynamic sampleState publicRequest dynamicRow) updateChoices
    (registeredWorld disabled dynamicRow)
    (fun r w' => r.isOk && (w'.db .clients).all Client.enabled) (by decide +kernel)
  obtain ⟨hok, henabled⟩ := Bool.and_eq_true_iff.mp hr
  rcases r with e | resp
  · cases hok
  obtain ⟨c', hmem, -, hkeeps⟩ := hall sampleState publicRequest dynamicRow _ w' disabled resp
    restores_sampleState rfl (inTable_registeredWorld _ _) (fun _ h => by cases h) hx
  have hfalse : c'.enabled = false := congrArg Client.enabled hkeeps.metadata
  have htrue : c'.enabled = true := List.all_eq_true.mp henabled c' hmem
  rw [hfalse] at htrue
  cases htrue

/-! ### The scheduler -/

/-- How two columns compare in SQL: with `NULL` there is no answer. -/
def Sql.eq (a b : Option Int) : Option Bool := do return (← a) == (← b)

/-- `WHERE`: rows about which there is no answer are left out. -/
def Sql.isTrue (x : Option Bool) : Bool := x == some true

/-- One run of `dynamic_client_cleanup`, with `DYN_CLIENT_CLEANUP_MINUTES` and what `is_ha_leader`
says. -/
def dynamicClientCleanup (cleanupMinutes : Int) (isHaLeader : Option Bool) :
    M ErrorResponse Unit :=
  if isHaLeader = some false then return ()
  else do
    match ← attempt (select .clientsDyn fun r => Sql.isTrue (Sql.eq r.lastUsed none)) with
    | .error _ => return ()
    | .ok clients =>
        let now ← unixTimestamp
        let threshold := now - cleanupMinutes
        forEach (fun client => runIf (client.created < threshold) do
          match ← attempt (Client.find client.id) with
          | .error _ => return ()
          | .ok c => ignoreErr c.delete) clients

/-- The client has never been used and was created more than that many minutes ago. -/
def ClientDyn.Unused (minutes now : Int) (r : ClientDyn) : Prop :=
  r.lastUsed = none ∧ r.created < now - 60 * minutes

/-- The clients that are cleaned up are those that were not used, and no others. -/
structure CleanedExactly (minutes now : Int) (db db' : Db) : Prop where
  dynamic : ∀ r, r ∈ db' .clientsDyn ↔ r ∈ db .clientsDyn ∧ ¬ r.Unused minutes now
  clients : ∀ c, c ∈ db' .clients ↔
    c ∈ db .clients ∧ ∀ r ∈ db .clientsDyn, r.id = c.id → ¬ r.Unused minutes now

section Cleanup

variable {minutes : Int} {isHaLeader : Option Bool} {w w' : World}

/-- Nothing is equal to `NULL`. -/
theorem Sql.eq_none (a : Option Int) : Sql.isTrue (Sql.eq a none) = false := by
  cases a <;> rfl

theorem dynamicClientCleanup_db :
    Outcomes sem (dynamicClientCleanup minutes isHaLeader) w fun _ w' => w'.db = w.db := by
  unfold dynamicClientCleanup
  split
  · exact outcomes_ret rfl
  · refine outcomes_bind (outcomes_tried (outcomes_select ?_ fun _ => ?_))
    · simp only [Sql.eq_none, List.filter_false]
      exact outcomes_bind (outcomes_unixTimestamp fun ms _ => outcomes_ret rfl)
    · exact outcomes_ret rfl

/-- **The scheduler cleans up the right clients iff there are none.** -/
theorem cleanup_exact_iff {r : Except (Fault ErrorResponse) Unit}
    (h : Exec sem (dynamicClientCleanup minutes isHaLeader) w r w') :
    CleanedExactly minutes (w'.clock / 1000) w.db w'.db ↔
      ∀ r ∈ w.db .clientsDyn, ¬ r.Unused minutes (w'.clock / 1000) := by
  rw [dynamicClientCleanup_db r w' h]
  constructor
  · intro hclean r hr
    exact ((hclean.dynamic r).mp hr).2
  · intro hnone
    refine ⟨fun r => ⟨fun hr => ⟨hr, hnone r hr⟩, And.left⟩, fun c => ?_⟩
    exact ⟨fun hc => ⟨hc, fun r hr _ => hnone r hr⟩, And.left⟩

end Cleanup

/-- No client is old enough. -/
theorem cleanup_exact_iff_young : ∃ r w', Exec sem (dynamicClientCleanup 60 none)
    (registeredWorld dynamicClient dynamicRow) r w' ∧
    (CleanedExactly 60 (w'.clock / 1000) (registeredWorld dynamicClient dynamicRow).db w'.db ↔
      ∀ r ∈ [dynamicRow], ¬ r.Unused 60 (w'.clock / 1000)) := by
  obtain ⟨r, w', hx, -⟩ := Pool.exists_exec_of_choices Op.run (dynamicClientCleanup 60 none)
    [.ok, .time 3600000] (registeredWorld dynamicClient dynamicRow) (fun _ _ => true)
    (by decide +kernel)
  exact ⟨r, w', hx, cleanup_exact_iff hx⟩

/-- A client that was registered hours ago and never used is still there. -/
theorem unused_client_stays :
    ¬ ∀ (minutes : Int) (isHaLeader : Option Bool) (w w' : World),
      Exec sem (dynamicClientCleanup minutes isHaLeader) w (.ok ()) w' →
      CleanedExactly minutes (w'.clock / 1000) w.db w'.db := by
  intro hall
  obtain ⟨r, w', hx, hr⟩ := Pool.exists_exec_of_choices Op.run (dynamicClientCleanup 60 none)
    [.ok, .time 36000000] (registeredWorld dynamicClient dynamicRow)
    (fun r w' => r.isOk && decide (w'.clock = 36000000) &&
      decide (dynamicRow ∈ w'.db .clientsDyn)) (by decide +kernel)
  simp only [Bool.and_eq_true, decide_eq_true_eq] at hr
  obtain ⟨⟨hok, hclock⟩, hstays⟩ := hr
  rcases r with e | ⟨⟩
  · cases hok
  have hclean := ((hall 60 none _ w' hx).dynamic dynamicRow).mp hstays
  rw [hclock] at hclean
  exact hclean.2 ⟨rfl, by decide⟩

end Rauthy
