/-
Rauthy/AdminApi.lean

The handlers of `rauthy-handlers/src` as endpoints, each with the permission that it asks for and
the proof that it keeps to the tables of this permission; and all of them at work together.

In every interleaving of these requests with whatever else the server does, each operation is
one of the middleware, or the request has shown its permission by what it has seen itself; and a
table changes only by requests that have shown a permission for this table.
-/
import Rauthy.DeviceFlow
import Rauthy.Endpoints
import Rauthy.Federation

namespace Rauthy

open Prog Pool

/-! ### What the operations change -/

section Operations

variable {data : AppState}
  {ts : List Table} {t : Table}

theorem confined_select {p : Row t → Bool} :
    Confined ts (select t p) := by
  have hselect : Touches [] [] (select t p) := touches_select t p
  exact hselect.confined (List.nil_subset ts)

/-! API keys -/

theorem ApiKeyEntity.create_confined (name : String) (expires : Option Int)
    (access : List ApiKeyAccess) :
    Confined [.apiKeys] (ApiKeyEntity.create data name expires access) := by
  refine confined_reads touches_unixTimestamp fun now => ?_
  refine confined_reads (touches_getRand _) fun plain => ?_
  refine confined_reads (touches_answer _) fun secret => ?_
  refine confined_reads (touches_answer _) fun accessEnc => ?_
  exact confined_writes (by simp [DbWrite.table]) fun _ => confined_ret trivial

theorem ApiKeyEntity.delete_confined (name : String) :
    Confined [.apiKeys] (ApiKeyEntity.delete name) :=
  confined_writes (by simp [DbWrite.table]) fun _ => confined_cacheDel _ _

theorem ApiKeyEntity.update_confined (name : String) (expires : Option Int)
    (access : List ApiKeyAccess) :
    Confined [.apiKeys] (ApiKeyEntity.update data name expires access) := by
  refine confined_reads (touches_fetchOne _ _) fun entity => ?_
  refine confined_reads (touches_answer _) fun key => ?_
  refine confined_reads (touches_answer _) fun secret => ?_
  refine confined_reads (touches_answer _) fun accessEnc => ?_
  exact confined_writes (by simp [DbWrite.table]) fun _ => confined_cacheDel _ _

theorem ApiKeyEntity.generateSecret_confined (name : String) :
    Confined [.apiKeys] (ApiKeyEntity.generateSecret data name) := by
  refine confined_reads (touches_fetchOne _ _) fun entity => ?_
  refine confined_reads (touches_answer _) fun key => ?_
  refine confined_reads (touches_getRand _) fun plain => ?_
  refine confined_reads (touches_answer _) fun secret => ?_
  refine confined_reads (touches_answer _) fun access => ?_
  refine confined_writes (by simp [DbWrite.table]) fun _ => ?_
  exact (confined_cacheDel _ _).done

theorem ApiKeyEntity.save_confined (k : ApiKeyEntity) :
    Confined [.apiKeys] k.save :=
  confined_writes (by simp [DbWrite.table]) fun _ => confined_cacheDel _ _

/-! Users and clients that are saved along -/

theorem User.saveAll_confined (us : List User) :
    Confined [.sessions, .refreshTokens] (User.saveAll us)
      fun ss => ∀ s ∈ ss, s.table = .users := by
  induction us with
  | nil => exact confined_ret fun s hs => by cases hs
  | cons u us ih =>
      refine confined_bind (F := fun s => s.table = .users) ?_ fun s hs => ?_
      · refine confined_writes (by simp) fun _ => ?_
        refine confined_bind ((u.saveCached_touches none).confined (by simp)) fun _ _ => ?_
        exact confined_ret rfl
      · exact confined_bind ih fun ss hss => confined_ret (List.forall_mem_cons.mpr ⟨hs, hss⟩)

theorem mem_tables_append {ss : List DbWrite} {last : DbWrite} (hss : ∀ s ∈ ss, s.table = t)
    (ht : t ∈ ts) (hlast : last.table ∈ ts) :
    ∀ s ∈ ss ++ [last], s.table ∈ ts := by
  intro s hs
  rcases List.mem_append.mp hs with hs | hs
  · rw [hss s hs]
    exact ht
  · rw [List.mem_singleton.mp hs]
    exact hlast

theorem User.saveEdited_confined (us : List User) {last : DbWrite}
    (hts : [.users, .sessions, .refreshTokens] ⊆ ts) (hlast : last.table ∈ ts) :
    Confined ts (User.saveEdited us last) := by
  refine confined_bind (confined_runIf fun _ => confined_cacheDel _ _) fun _ _ => ?_
  refine confined_writes (by simp) fun _ => ?_
  have hends : [.sessions, .refreshTokens] ⊆ ts := fun t ht => hts (List.mem_cons_of_mem _ ht)
  refine confined_bind ((User.saveAll_confined us).mono hends) fun ss hss => ?_
  refine confined_writes (by simp) fun _ => confined_execute ?_
  exact mem_tables_append hss (hts List.mem_cons_self) hlast

theorem Client.saveAll_confined (cs : List Client) :
    Confined [] (Client.saveAll cs) fun ss => ∀ s ∈ ss, s.table = .clients := by
  induction cs with
  | nil => exact confined_ret fun s hs => by cases hs
  | cons c cs ih =>
      refine confined_bind (F := fun s => s.table = .clients) ?_ fun s hs => ?_
      · refine confined_writes (by simp) fun _ => ?_
        refine confined_bind (confined_cachePut _ _ _) fun _ _ => ?_
        refine confined_reads (touches_select _ _) fun all => ?_
        exact confined_bind (confined_cachePut _ _ _) fun _ _ => confined_ret rfl
      · exact confined_bind ih fun ss hss => confined_ret (List.forall_mem_cons.mpr ⟨hs, hss⟩)

theorem Client.save_confined (c : Client) : Confined [.clients] c.save := by
  refine confined_writes (by simp [Client.saveStmt, DbWrite.table]) fun _ => ?_
  refine confined_bind (confined_cachePut _ _ _) fun _ _ => ?_
  exact confined_reads (touches_select _ _) fun all => confined_cachePut _ _ _

/-! Roles -/

theorem User.findAll_touches : Touches [] [] User.findAll :=
  touches_bind (touches_select _ _) fun _ => touches_ret _

theorem Listing.insert_confined (L : Listing t) (rows : List (Row t)) (row : Row t) :
    Confined [t] (L.insert rows row) :=
  confined_writes (by simp [DbWrite.table]) fun _ => confined_cachePut _ _ _

theorem Role.create_confined (name : String) :
    Confined [.roles] (Role.create name) := by
  refine confined_after (roleListing.findAll_touches fun _ => rfl) fun roles => ?_
  refine confined_reads (touches_throwIf _ _) fun _ => ?_
  refine confined_reads (touches_getRand _) fun id => ?_
  exact (roleListing.insert_confined _ _).done

theorem Role.update_confined (id newName : String) :
    Confined [.roles, .users, .sessions, .refreshTokens] (Role.update id newName) := by
  refine confined_reads (touches_fetchOne _ _) fun role => ?_
  refine confined_reads User.findAll_touches fun all => ?_
  refine confined_bind (User.saveEdited_confined _ (by simp) (by simp [DbWrite.table]))
    fun _ _ => ?_
  exact confined_after (roleListing.storeUpdated_touches (fun _ => rfl) _ _) fun _ =>
    confined_ret trivial

theorem Role.delete_confined (id : String) :
    Confined [.roles, .users, .sessions, .refreshTokens] (Role.delete id) := by
  refine confined_reads (touches_fetchOne _ _) fun role => ?_
  refine confined_reads (touches_throwIf _ _) fun _ => ?_
  refine confined_reads User.findAll_touches fun all => ?_
  refine confined_bind (User.saveEdited_confined _ (by simp) (by simp [DbWrite.table]))
    fun _ _ => ?_
  exact (roleListing.storeDeleted_touches (fun _ => rfl) _).confined (List.nil_subset _)

/-! Groups -/

theorem Group.create_confined (name : String) :
    Confined [.groups] (Group.create name) := by
  refine confined_after (groupListing.findAll_touches fun _ => rfl) fun groups => ?_
  refine confined_reads (touches_throwIf _ _) fun _ => ?_
  refine confined_reads (touches_getRand _) fun id => ?_
  exact (groupListing.insert_confined _ _).done

theorem Group.update_confined (id newName : String) :
    Confined [.groups, .users, .sessions, .refreshTokens] (Group.update id newName) := by
  refine confined_reads (touches_fetchOne _ _) fun group => ?_
  refine confined_reads User.findAll_touches fun all => ?_
  refine confined_bind (User.saveEdited_confined _ (by simp) (by simp [DbWrite.table]))
    fun _ _ => ?_
  exact confined_after (groupListing.storeUpdated_touches (fun _ => rfl) _ _) fun _ =>
    confined_ret trivial

theorem Group.delete_confined (id : String) :
    Confined [.groups, .users, .sessions, .refreshTokens] (Group.delete id) := by
  refine confined_reads (touches_fetchOne _ _) fun group => ?_
  refine confined_reads User.findAll_touches fun all => ?_
  refine confined_bind (User.saveEdited_confined _ (by simp) (by simp [DbWrite.table]))
    fun _ _ => ?_
  exact (groupListing.storeDeleted_touches (fun _ => rfl) _).confined (List.nil_subset _)

/-! Scopes -/

theorem Scope.create_confined (req : ScopeRequest) :
    Confined [.scopes] (Scope.create data req) := by
  refine confined_after Scope.findAll_touches fun scopes => ?_
  refine confined_reads (touches_throwIf _ _) fun _ => ?_
  refine confined_reads (touches_throwIf _ _) fun _ => ?_
  refine confined_after UserAttrConfigEntity.findAll_touches fun attrs => ?_
  refine confined_reads (touches_getRand _) fun id => ?_
  refine confined_bind (scopeListing.insert_confined _ _) fun _ _ => ?_
  exact confined_after (WellKnown.rebuild_touches data) fun _ => confined_ret trivial

theorem Scope.delete_confined (id : String) :
    Confined [.scopes, .clients] (Scope.delete data id) := by
  refine confined_reads (touches_fetchOne _ _) fun scope => ?_
  refine confined_reads (touches_throwIf _ _) fun _ => ?_
  refine confined_reads (touches_select _ _) fun all => ?_
  refine confined_bind (confined_runIf fun _ => confined_cacheDel _ _) fun _ _ => ?_
  refine confined_writes (by simp) fun _ => ?_
  refine confined_bind ((Client.saveAll_confined _).mono (by simp)) fun ss hss => ?_
  refine confined_writes (by simp) fun _ => ?_
  refine confined_writes (mem_tables_append hss (by simp) (by simp [DbWrite.table])) fun _ => ?_
  refine confined_after (scopeListing.storeDeleted_touches (fun _ => rfl) _) fun _ => ?_
  exact (WellKnown.rebuild_touches data).confined (List.nil_subset _)

theorem Scope.saveRenamed_confined (oldName newName : String) :
    Confined [] (Scope.saveRenamed oldName newName) fun ss => ∀ s ∈ ss, s.table = .clients := by
  unfold Scope.saveRenamed
  split
  · exact confined_ret fun s hs => by cases hs
  · refine confined_reads (touches_select _ _) fun all => ?_
    refine confined_bind (confined_runIf fun _ => confined_cacheDel _ _) fun _ _ => ?_
    exact Client.saveAll_confined _

theorem Scope.update_confined (id : String) (req : ScopeRequest) :
    Confined [.scopes, .clients] (Scope.update data id req) := by
  refine confined_reads (touches_fetchOne _ _) fun scope => ?_
  refine confined_reads (touches_throwIf _ _) fun _ => ?_
  refine confined_reads (touches_throwIf _ _) fun _ => ?_
  refine confined_writes (by simp) fun _ => ?_
  refine confined_bind ((Scope.saveRenamed_confined _ _).mono (by simp))
    fun ss hss => ?_
  refine confined_after UserAttrConfigEntity.findAll_touches fun attrs => ?_
  refine confined_writes (by simp) fun _ => ?_
  refine confined_writes (mem_tables_append hss (by simp) (by simp [DbWrite.table])) fun _ => ?_
  refine confined_after (scopeListing.storeUpdated_touches (fun _ => rfl) _ _) fun _ => ?_
  refine confined_after (touches_runIf (WellKnown.rebuild_touches data)) fun _ => ?_
  exact confined_ret trivial

/-! Clients -/

theorem Client.create_confined (req : NewClientRequest) :
    Confined [.clients] (Client.create data req) := by
  refine confined_reads (Client.firstSecret_touches data _) fun secret => ?_
  exact confined_writes (by simp [DbWrite.table]) fun _ => confined_ret trivial

theorem updateClient_confined (id : String) (req : UpdateClientRequest) :
    Confined [.clients] (updateClient data id req) := by
  refine confined_after (Client.find_touches id) fun client => ?_
  refine confined_reads (touches_throwIf _ _) fun _ => ?_
  refine confined_reads (client.newSecret_touches data _) fun secret => ?_
  refine confined_after (sanitizeScopes_touches _) fun scopes => ?_
  refine confined_after (sanitizeScopes_touches _) fun defaultScopes => ?_
  exact (Client.save_confined _).done

theorem generateNewSecret_confined (id : String) :
    Confined [.clients] (generateNewSecret data id) := by
  refine confined_after (Client.find_touches id) fun client => ?_
  refine confined_reads (Client.generateNewSecret_touches data) fun secret => ?_
  exact (Client.save_confined _).done

theorem deleteClient_confined (id : String) :
    Confined Client.deleteTables (deleteClient id) := by
  refine confined_reads (touches_throwIf _ _) fun _ => ?_
  refine confined_after (Client.find_touches id) fun client => ?_
  refine confined_writes (fun s hs => Client.deleteStmts_table hs) fun _ => ?_
  refine confined_bind (confined_cacheDel _ _) fun _ _ => ?_
  exact confined_runIf fun _ => confined_cacheDel _ _

/-! Users -/

theorem User.createFromNew_confined (req : NewUserRequest) :
    Confined [.users, .magicLinks] (User.createFromNew data req) := by
  refine confined_bind (F := fun _ => True) ?_ fun newUser _ => ?_
  · refine confined_after (Role.sanitize_touches _) fun roles => ?_
    refine confined_after (Group.sanitize_touches _) fun groups => ?_
    refine confined_reads ?_ fun user => confined_ret trivial
    exact touches_bind (touches_getRand _) fun _ => touches_bind touches_unixTimestamp fun _ =>
      touches_ret _
  · refine confined_bind ((insert_touches newUser).confined (by simp)) fun slf _ => ?_
    exact ((MagicLink.create_touches _ _ _).confined (by simp)).done

theorem User.delete_confined (u : User) :
    Confined [.users, .usersValues, .userAttrValues, .recentPasswords, .magicLinks,
      .sessions, .passkeys, .refreshTokens, .refreshTokensDevices, .devices] u.delete := by
  refine confined_bind ((Session.deleteByUser_touches u.id).confined (by simp)) fun _ _ => ?_
  refine confined_writes (by simp [User.deleteStmts, DbWrite.table]) fun _ => ?_
  refine confined_bind (confined_cacheDel _ _) fun _ _ => ?_
  refine confined_bind (confined_cacheDel _ _) fun _ _ => ?_
  exact confined_after User.count_touches fun _ => confined_cachePut _ _ _

theorem User.providerUnlink_confined (id : String) :
    Confined [.users, .sessions, .refreshTokens] (User.providerUnlink data id) := by
  refine confined_after (User.find_touches id) fun user => ?_
  refine confined_reads (touches_throwIf _ _) fun _ => ?_
  exact ((User.save_touches data _ _).confined (List.Subset.refl _)).done

/-! Sessions -/

theorem Session.invalidateAllEach_confined (now : Int) (ss : List Session) :
    Confined [.sessions] (Session.invalidateAllEach now ss) := by
  induction ss with
  | nil => exact confined_ret trivial
  | cons s ss ih =>
      unfold Session.invalidateAllEach
      split
      · refine confined_bind ((touches_ignoreErr (Session.save_touches _)).confined
          (List.Subset.refl _)) fun _ _ => ?_
        exact ih.done
      · exact ih

theorem deleteSessions_confined :
    Confined [.sessions, .refreshTokens] deleteSessions := by
  refine confined_bind (F := fun _ => True) ?_ fun _ _ => ?_
  · refine confined_reads touches_unixTimestamp fun now => ?_
    refine confined_reads (touches_bind (touches_select _ _) fun _ => touches_ret _) fun ss => ?_
    refine confined_bind ((Session.invalidateAllEach_confined now ss).mono (by simp))
      fun removed _ => ?_
    exact confined_forEach fun _ => confined_cacheDel _ _
  · refine confined_reads touches_unixTimestamp fun now => ?_
    exact confined_execute (by simp [DbWrite.table])

theorem deleteSessionsForUser_confined (uid : String) :
    Confined [.sessions, .refreshTokens] (deleteSessionsForUser uid) := by
  refine confined_bind ((Session.invalidateForUser_touches uid).confined (by simp)) fun _ _ => ?_
  exact (RefreshToken.invalidateForUser_touches uid).confined (by simp)

/-! Secrets -/

theorem AuthProvider.save_confined (p : AuthProvider) :
    Confined [.authProviders] (p.save data) := by
  refine confined_writes (by simp [AuthProvider.saveStmt, DbWrite.table]) fun _ => ?_
  exact confined_after AuthProvider.invalidateCacheAll_touches fun _ => confined_cachePut _ _ _

theorem authProviders_touches : Touches [] [(.c12hr, .authProviders)] AuthProvider.findAll :=
  touches_cached (touches_select _ _) (by simp [CacheVal.slot])

theorem migrateEncryptionAlg_confined (newKid : String)
    (gen : JwkKeyPairAlg → Except ErrorResponse Bytes) :
    Confined [.apiKeys, .authProviders, .clients, .jwks]
      (migrateEncryptionAlg data newKid gen) := by
  refine confined_reads (touches_answer _) fun _ => ?_
  refine confined_reads (touches_select _ _) fun clients => ?_
  refine confined_bind (confined_forEach fun client => ?_) fun _ _ => ?_
  · unfold migrateClient
    split
    · exact confined_ret trivial
    · refine confined_reads (touches_unwrap _ _) fun secret => ?_
      refine confined_reads (touches_answer _) fun dec => ?_
      refine confined_reads (touches_answer _) fun enc => ?_
      exact (Client.save_confined _).mono (by simp)
  refine confined_bind (rotateJwks_touches.confined (by simp)) fun _ _ => ?_
  refine confined_reads (touches_select _ _) fun apiKeys => ?_
  refine confined_bind (confined_forEach fun apiKey => ?_) fun _ _ => ?_
  · refine confined_reads (touches_answer _) fun dec => ?_
    refine confined_reads (touches_answer _) fun secret => ?_
    refine confined_reads (touches_answer _) fun dec => ?_
    refine confined_reads (touches_answer _) fun access => ?_
    exact (ApiKeyEntity.save_confined _).mono (by simp)
  refine confined_after authProviders_touches fun providers => confined_forEach fun provider => ?_
  unfold migrateProvider
  split
  · refine confined_reads (touches_answer _) fun secret => ?_
    exact (AuthProvider.save_confined _).mono (by simp)
  · exact confined_ret trivial
  · exact confined_ret trivial

theorem putPasswordPolicy_confined (req : PasswordPolicyRequest) :
    Confined [.passwordPolicy] (putPasswordPolicy req) := by
  refine confined_after PasswordPolicy.find_touches fun rules => ?_
  have hsave : Confined [.passwordPolicy] (rules.applyReq req).save :=
    confined_writes (by simp [DbWrite.table]) fun _ => confined_cachePut _ _ _
  exact hsave.done

end Operations

/-! ### The handlers -/

/-- `get_api_keys`: each key is decrypted for the answer. -/
def getApiKeys (data : AppState) : M ErrorResponse Unit := do
  let entities ← ApiKeyEntity.findAll
  forEach (fun entity => do let _ ← answer (entity.intoApiKey data)) entities

/-- `put_api_key`: the name in the path comes first. -/
def putApiKey (data : AppState) (name reqName : String) (exp : Option Int)
    (access : List ApiKeyAccess) : M ErrorResponse Unit := do
  throwIf (reqName ≠ name) (err .badRequest "JSON payload does not match the Name from the path")
  ApiKeyEntity.update data name exp access

/-- The answer about one user, with its values -/
def withValues (user : M ErrorResponse User) : M ErrorResponse (User × Option UserValues) := do
  let user ← user
  let values ← UserValues.find user.id
  return (user, values)

theorem withValues_confined {ts : List Table} {cs : List (CacheName × Slot)}
    {user : M ErrorResponse User} (h : Touches [] cs user) :
    Confined ts (withValues user) :=
  confined_after h fun user => confined_after (UserValues.find_touches user.id) fun _ =>
    confined_ret trivial

/-- `get_client_secret` -/
def getClientSecret (data : AppState) (id : String) : M ErrorResponse ClientSecretResponse := do
  let client ← Client.find id
  throwIf (client.confidential = false)
    (err .notFound ("'" ++ client.id ++ "' is a public client"))
  let secret ← answer (client.getSecretCleartext data)
  return { id := client.id, confidential := client.confidential, secret }

/-- A handler that does the same for every principal it lets in -/
def Endpoint.of {α : Type} (needs : Permission) (p : M ErrorResponse α)
    (h : Confined needs.tables p) : Endpoint Unit where
  needs := needs
  handler _ := do let _ ← p
  confined _ := h.done

/-- The requests.  Those about attributes, devices, passkeys, providers, logos, colours, WebIDs
and lists by page are left out. -/
inductive ApiRequest where
  | getApiKeys
  | postApiKey (name : String) (exp : Option Int) (access : List ApiKeyAccess)
  | putApiKey (name reqName : String) (exp : Option Int) (access : List ApiKeyAccess)
  | deleteApiKey (name : String)
  | putApiKeySecret (name : String)
  | getRoles
  | postRole (role : String)
  | putRole (id role : String)
  | deleteRole (id : String)
  | getGroups
  | postGroup (group : String)
  | putGroup (id group : String)
  | deleteGroup (id : String)
  | getScopes
  | postScope (req : ScopeRequest)
  | putScope (id : String) (req : ScopeRequest)
  | deleteScope (id : String)
  | getClients
  | getClientById (id : String)
  | getClientSecret (id : String)
  | postClients (req : NewClientRequest)
  | putClients (id : String) (req : UpdateClientRequest)
  | putGenerateClientSecret (id : String)
  | deleteClient (id : String)
  | postUsers (req : NewUserRequest)
  | getUserById (id : String)
  | getUserByEmail (email : String)
  | putUserById (id : String) (upd : UpdateUserRequest)
  | deleteUserById (id : String)
  | putUserSelf (id : String) (upd : UpdateUserSelfRequest)
  | deleteSessions
  | deleteSessionsForUser (uid : String)
  | deleteProviderLink
  | rotateJwk (gen : JwkKeyPairAlg → Except ErrorResponse Bytes)
  | postMigrateEncKey (keyId : String) (gen : JwkKeyPairAlg → Except ErrorResponse Bytes)
  | getPasswordPolicy
  | putPasswordPolicy (req : PasswordPolicyRequest)

/-- The handler of a request, with the permission that it asks for. -/
def ApiRequest.endpoint (data : AppState) : ApiRequest → Endpoint Unit
  | getApiKeys => .of .adminSession (Rauthy.getApiKeys data) <|
      confined_reads (touches_select _ _) fun _ => confined_forEach fun _ =>
        confined_reads (touches_answer _) fun _ => confined_ret trivial
  | postApiKey name exp access => .of .adminSession (ApiKeyEntity.create data name exp access) <|
      (ApiKeyEntity.create_confined name exp access).mono (by decide)
  | putApiKey name reqName exp access =>
      .of .adminSession (Rauthy.putApiKey data name reqName exp access) <|
        confined_reads (touches_throwIf _ _) fun _ =>
          (ApiKeyEntity.update_confined name exp access).mono (by decide)
  | deleteApiKey name => .of .adminSession (ApiKeyEntity.delete name) <|
      (ApiKeyEntity.delete_confined name).mono (by decide)
  | putApiKeySecret name => .of .adminSession (ApiKeyEntity.generateSecret data name) <|
      (ApiKeyEntity.generateSecret_confined name).mono (by decide)
  | getRoles => .of (.apiKeyOrAdminSession .roles .read) Role.findAll <|
      (roleListing.findAll_touches fun _ => rfl).confined (List.nil_subset _)
  | postRole role => .of (.apiKeyOrAdminSession .roles .create) (Role.create role) <|
      Role.create_confined role
  | putRole id role => .of (.apiKeyOrAdminSession .roles .update) (Role.update id role) <|
      Role.update_confined id role
  | deleteRole id => .of (.apiKeyOrAdminSession .roles .delete) (Role.delete id) <|
      Role.delete_confined id
  | getGroups => .of (.apiKeyOrAdminSession .groups .read) Group.findAll <|
      (groupListing.findAll_touches fun _ => rfl).confined (List.nil_subset _)
  | postGroup group => .of (.apiKeyOrAdminSession .groups .create) (Group.create group) <|
      Group.create_confined group
  | putGroup id group => .of (.apiKeyOrAdminSession .groups .update) (Group.update id group) <|
      Group.update_confined id group
  | deleteGroup id => .of (.apiKeyOrAdminSession .groups .delete) (Group.delete id) <|
      Group.delete_confined id
  | getScopes => .of (.apiKeyOrAdminSession .scopes .read) Scope.findAll <|
      Scope.findAll_touches.confined (List.nil_subset _)
  | postScope req => .of (.apiKeyOrAdminSession .scopes .create) (Scope.create data req) <|
      Scope.create_confined req
  | putScope id req => .of (.apiKeyOrAdminSession .scopes .update) (Scope.update data id req) <|
      Scope.update_confined id req
  | deleteScope id => .of (.apiKeyOrAdminSession .scopes .delete) (Scope.delete data id) <|
      Scope.delete_confined id
  | getClients => .of (.apiKeyOrAdminSession .clients .read) Client.findAll <|
      confined_select
  | getClientById id => .of (.apiKeyOrAdminSession .clients .read) (Client.find id) <|
      (Client.find_touches id).confined (List.nil_subset _)
  | getClientSecret id =>
      .of (.apiKeyOrAdminSession .secrets .read) (Rauthy.getClientSecret data id) <|
        confined_after (Client.find_touches id) fun _ =>
          confined_reads (touches_throwIf _ _) fun _ =>
            confined_reads (touches_answer _) fun _ => confined_ret trivial
  | postClients req => .of (.apiKeyOrAdminSession .clients .create) (Client.create data req) <|
      Client.create_confined req
  | putClients id req => .of (.apiKeyOrAdminSession .clients .update) (updateClient data id req) <|
      updateClient_confined id req
  | putGenerateClientSecret id =>
      .of (.apiKeyOrAdminSession .secrets .update) (generateNewSecret data id) <|
        (generateNewSecret_confined id).mono (by decide)
  | deleteClient id => .of (.apiKeyOrAdminSession .clients .delete) (Rauthy.deleteClient id) <|
      deleteClient_confined id
  | postUsers req => .of (.apiKeyOrAdminSession .users .create) (User.createFromNew data req) <|
      User.createFromNew_confined req
  | getUserById id => .of (.readUser id) (withValues (User.find id)) <|
      withValues_confined (User.find_touches id)
  | getUserByEmail email =>
      .of (.apiKeyOrAdminSession .users .read) (withValues (User.findByEmail data email)) <|
        withValues_confined (User.findByEmail_touches data email)
  | putUserById id upd =>
      .of (.apiKeyOrAdminSession .users .update) (User.update data id upd none) <|
        (User.update_touches id upd none).confined (List.Subset.refl _)
  | deleteUserById id =>
      .of (.apiKeyOrAdminSession .users .delete) (User.find id >>= User.delete) <|
        confined_after (User.find_touches id) User.delete_confined
  | putUserSelf id upd => .of (.isUser id) (User.updateSelfReq data id upd) <|
      (User.updateSelfReq_touches id upd).confined (List.Subset.refl _)
  | deleteSessions => .of (.apiKeyOrAdminSession .sessions .delete) Rauthy.deleteSessions <|
      deleteSessions_confined
  | deleteSessionsForUser uid =>
      .of (.apiKeyOrAdminSession .sessions .delete) (Rauthy.deleteSessionsForUser uid) <|
        deleteSessionsForUser_confined uid
  | deleteProviderLink => {
      needs := .sessionAuth
      handler := fun p => do
        let userId ← answer p.toPrincipal.tryUserId
        let _ ← User.providerUnlink data userId
      confined := fun p => confined_reads (touches_answer _) fun userId =>
        (User.providerUnlink_confined userId).done }
  | rotateJwk gen => .of (.apiKeyOrAdminSession .secrets .update) (rotateJwks data gen) <|
      rotateJwks_touches.confined (by decide)
  | postMigrateEncKey keyId gen =>
      .of (.apiKeyOrAdminSession .secrets .update) (migrateEncryptionAlg data keyId gen) <|
        (migrateEncryptionAlg_confined keyId gen).mono (by decide)
  | getPasswordPolicy => .of .sessionAuth PasswordPolicy.find <|
      PasswordPolicy.find_touches.confined (List.nil_subset _)
  | putPasswordPolicy req =>
      .of (.apiKeyOrAdminSession .secrets .update) (Rauthy.putPasswordPolicy req) <|
        (putPasswordPolicy_confined req).mono (by decide)

/-! ### All of them at work -/

/-- A request of the API, or something else that the server does: with its tables. -/
inductive ApiCall where
  | request (req : HttpRequest) (r : ApiRequest)
  | aside (ts : List Table) (p : M ErrorResponse Unit) (hp : Confined ts p)

namespace ApiCall

variable (data : AppState)

def prog : ApiCall → M ErrorResponse Unit
  | request req r => (r.endpoint data).run data req
  | aside _ p _ => p

/-- What the call does before it is let in. -/
def Free : ApiCall → Op → Prop
  | request _ _, o => o.OfMiddleware
  | aside _ _ _, _ => True

def evidence : ApiCall → Evidence Op Op.Res
  | request req r => (r.endpoint data).needs.evidence data req
  | aside _ _ _ => Evidence.free

/-- The tables that the call can change once it is let in. -/
def tables : ApiCall → List Table
  | request _ r => (r.endpoint data).needs.tables
  | aside ts _ _ => ts

/-- Besides what the middleware does, the call changes its tables only. -/
def Allows (q : ApiCall) (o : Op) : Prop := o.OfMiddleware ∨ o.tables ⊆ q.tables data

end ApiCall

abbrev ApiLog := Log ApiCall Op Op.Res (Except (Fault ErrorResponse) Unit)
abbrev ApiEvent := Event ApiCall Op Op.Res (Except (Fault ErrorResponse) Unit)
abbrev ApiPool := Pool ApiCall Op Op.Res World (Fault ErrorResponse) Unit

/-- Some request has changed the table after it had shown a permission for this table, or it was
changed aside. -/
def ChangedWithPermission (data : AppState) (t : Table) (log : ApiLog) : Prop :=
  ∃ l₂ id o x l₁, log = l₂ ++ .op id o x :: l₁ ∧ t ∈ o.tables ∧
    ∃ q, .start id q ∈ l₁ ∧ t ∈ q.tables data ∧ (q.evidence data).holds (seenBy id l₁)

section Mediation

variable {data : AppState} {w w₀ : World} {w' : World} {P : ApiPool}
  {C : World → ApiLog → ApiEvent → Prop}

theorem ApiCall.sees_prog (q : ApiCall) :
    Sees Op.Possible (Guarded q.Free (q.evidence data)) (q.prog data)
      (fun _ tr => (q.evidence data).holds tr) [] := by
  cases q with
  | request req r => exact (r.endpoint data).sees_run
  | aside ts p hp => exact Evidence.sees (E := Evidence.free) trivial p

theorem ApiCall.sees_confined (q : ApiCall) :
    Sees Op.Possible (fun _ v => q.Allows data v.1) (q.prog data) (fun _ _ => True) [] := by
  cases q with
  | request req r => exact (r.endpoint data).sees_run_confined
  | aside ts p hp => exact seenWp_weaken (hp []) fun _ _ hv => .inr hv

theorem Op.OfMiddleware.tables {o : Op} (h : o.OfMiddleware) : o.tables ⊆ [.sessions] := by
  cases o with
  | execute ss =>
      obtain ⟨s, rfl⟩ := h
      exact List.Subset.refl _
  | _ => exact List.nil_subset _

/-- **The API is mediated completely.**  In every interleaving of the requests with whatever else
the server does, each operation of a request is one of the middleware, or the request has shown
the permission of its handler by what it has read itself; and no table but that of the sessions
has changed unless a request had shown a permission for this table before, or it was changed
aside. -/
theorem api_mediated (h : Run (ApiCall.prog data) sem C (init w₀) P) :
    Log.Always (fun e l => ∀ id o x, e = .op id o x → ∃ q, .start id q ∈ l ∧
      ∀ req r, q = .request req r → o.OfMiddleware ∨
        (r.endpoint data).needs.Shown data req (seenBy id l) ∧
        o.tables ⊆ (r.endpoint data).needs.tables) P.log ∧
    ∀ t, t ≠ .sessions → P.world.db t = w₀.db t ∨ ChangedWithPermission data t P.log := by
  have hguarded := Run.guarded ApiCall.sees_prog ApiCall.sees_confined
    (fun w l t q o x w' _ hx _ => ⟨w, w', hx⟩) h
  refine ⟨hguarded.mono fun e l hop id o x he => ?_, fun t ht => ?_⟩
  · obtain ⟨q, hstart, hconfined, hshown⟩ := hop.1 id o x he
    refine ⟨q, hstart, ?_⟩
    rintro req r rfl
    rcases hconfined with hmiddleware | hconfined
    · exact .inl hmiddleware
    · rcases hshown with hmiddleware | hshown
      · exact .inl hmiddleware
      · exact .inr ⟨hshown, hconfined⟩
  · have hview : ∀ (o : Op) (w : World) (x : o.Res) (w' : World), sem o w x w' → ¬ t ∈ o.tables →
        w'.db t = w.db t := fun _ _ _ _ hx ho => sem_table hx ho
    rcases Run.view_kept hview h with hsame | ⟨id, o, x, hmem, hchanges⟩
    · exact .inl hsame
    · obtain ⟨l₂, l₁, hlog⟩ := List.append_of_mem hmem
      obtain ⟨q, hstart, hconfined, hshown⟩ :=
        (hguarded.of_suffix ⟨l₂, hlog.symm⟩).1 id o x rfl
      -- the middleware writes sessions only
      have hnot : ¬ o.OfMiddleware := fun ho => ht (List.mem_singleton.mp (ho.tables hchanges))
      refine .inr ⟨l₂, id, o, x, l₁, hlog, hchanges, q, hstart, ?_, ?_⟩
      · exact hconfined.resolve_left hnot hchanges
      · cases q with
        | request req r => exact hshown.resolve_left hnot
        | aside ts p hp => trivial

end Mediation

/-! ### An admin and somebody else -/

/-- The session of an admin who has used a passkey -/
def rootSession : Session where
  id := "s"
  csrfToken := "csrf"
  userId := some "root"
  roles := some roleAdmin
  groups := none
  isMfa := true
  state := .auth
  exp := 1000
  lastSeen := 100
  remoteIp := none

def rootWorld : World where
  clock := 100000
  issued := []
  db _ := []
  cache
    | .sessions, "session_s" => some (.session rootSession)
    | _, _ => none

def rootReq : HttpRequest :=
  { (default : HttpRequest) with sessionCookie := some "s", csrfToken := some "csrf" }

/-- The admin creates a role; somebody without a session asks for another one. -/
def roleMoves : List (Move ApiCall Choice) :=
  [.start 0 (.request rootReq (.postRole "ops")), .start 1 (.request default (.postRole "mine")),
    .done 1, .op 0 .ok, .op 0 (.time 101000), .op 0 (.time 101000), .op 0 .miss, .op 0 .ok,
    .op 0 .ok, .op 0 (.rand (String.ofList (List.replicate 24 'r'))), .op 0 .ok, .op 0 .ok, .done 0]

theorem api_mediated_role :
    ∃ P : ApiPool, Run (ApiCall.prog sampleState) sem (fun _ _ _ => True) (init rootWorld) P ∧
      (P.world.db .roles).map Role.name = ["ops"] ∧
      ChangedWithPermission sampleState .roles P.log := by
  obtain ⟨P, hrun, hroles⟩ := exists_run_of_moves (C := fun _ _ _ => True)
    (ApiCall.prog sampleState) Op.run (fun _ _ _ => true) rootWorld roleMoves
    (fun P => (P.world.db .roles).map Role.name == ["ops"]) (by decide +kernel)
    (fun _ _ _ _ => trivial)
  have hroles := beq_iff_eq.mp hroles
  refine ⟨P, hrun, hroles, ?_⟩
  rcases (api_mediated hrun).2 .roles (by decide) with hsame | hchanged
  · rw [hsame] at hroles
    cases hroles
  · exact hchanged

end Rauthy
