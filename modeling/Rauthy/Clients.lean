/-
Rauthy/Clients.lean

`rauthy-models/src/entity/clients.rs` and `rauthy-service/src/client.rs`: clients
live in the table `clients` and, by id, in the 12-hour cache; ephemeral clients are
fetched from their URL and live in a cache only.  The `validate_*` methods are the
checks that the endpoints choose from.
-/
import Rauthy.UserData
import Rauthy.Users

namespace Rauthy

open Prog

namespace CacheVal

def client? : CacheVal → Option Client
  | client v => some v
  | _ => none

@[simp] theorem client?_eq_some {v : CacheVal} {c : Client} :
    v.client? = some c ↔ v = client c := by
  cases v <;> simp [client?]

end CacheVal

namespace Client

/-! ### CRUD -/

/-- `Client::get_cache_entry`, `cache_entry_client` -/
def getCacheEntry (id : String) : String := "client_" ++ id

theorem getCacheEntry_inj {a b : String} : getCacheEntry a = getCacheEntry b ↔ a = b :=
  String.append_right_inj _

/-- The key is built from the client that was found, not from the requested id. -/
def find (id : String) : M ErrorResponse Client := do
  match ← cacheGet .c12hr (getCacheEntry id) CacheVal.client? with
  | some client => return client
  | none =>
      let client ← fetchOne .clients fun c => c.id == id
      cachePut .c12hr (getCacheEntry client.id) (.client client)
      return client

def findAll : M ErrorResponse (List Client) := select .clients fun _ => true

/-- `Client::ephemeral_from_url`: the document must name its own URL as the client. -/
def ephemeralFromUrl (url : String) : M ErrorResponse Client := do
  let client ← call (.fetchEphemeralClient url) answer
  throwIf (client.id ≠ url) (err .badRequest
    ("Client id from remote document " ++ client.id ++ " does not match the given URL " ++ url))
  return client

def findMaybeEphemeral (data : AppState) (id : String) : M ErrorResponse Client :=
  if !data.enableEphemeralClients || !data.isUrl id then find id
  else cached .ephemeralClients id CacheVal.client? .client (ephemeralFromUrl id)

/-- The statement of `save`: all columns but the id. -/
def saveStmt (c : Client) : DbWrite :=
  .update .clients (fun r => r.id == c.id) fun r => { c with id := r.id }

/-- Saves all columns, then the entry of the client, then the list of all clients. -/
def save (c : Client) : M ErrorResponse Unit := do
  execute [c.saveStmt]
  cachePut .c12hr (getCacheEntry c.id) (.client c)
  let all ← findAll
  let clients := all.map fun r => if r.id = c.id then c else r
  cachePut .c12hr "clients_" (.clients (if all.any (·.id == c.id) then clients else clients ++ [c]))

/-! ### Methods -/

def isDynamic (c : Client) : Bool := Text.startsWith c.id "dyn$"

def isEphemeral (data : AppState) (c : Client) : Bool := data.isUrl c.id

/-- `Client::force_mfa` -/
def forceMfaOf (data : AppState) (c : Client) : Bool :=
  c.forceMfa || (c.id == "rauthy" && data.adminForceMfa)

def getRedirectUris (c : Client) : List String := (Text.split ',' c.redirectUris).map Text.trim

def getPostLogoutUris (c : Client) : Option (List String) :=
  c.postLogoutRedirectUris.map fun uris => (Text.split ',' uris).map Text.trim

def getAllowedOrigins (c : Client) : Option (List String) :=
  c.allowedOrigins.map fun origins => (Text.split ',' origins).map Text.trim

/-- `Client::sanitize_login_scopes`: the default scopes, and of the requested ones
those that occur in the text of the client's scopes. -/
def sanitizeLoginScopes (c : Client) (scopes : Option (List String)) : List String :=
  match scopes with
  | none => Text.split ',' c.defaultScopes
  | some scopes => Text.split ',' c.defaultScopes ++
      scopes.filter fun s => !Text.contains c.defaultScopes s && Text.contains c.scopes s

/-- The check of `validate_mfa` is not made for the client `rauthy`. -/
def validateMfa (c : Client) (user : User) : Except ErrorResponse Unit :=
  if c.id ≠ "rauthy" ∧ c.forceMfa ∧ ¬ user.hasWebauthnEnabled then
    .error ⟨.mfaRequired, "MFA is required for this client"⟩
  else .ok ()

/-- `is_origin_external`: the `Origin` header, and whether it is not our own. -/
def isOriginExternal (data : AppState) (req : HttpRequest) :
    Except ErrorResponse (Bool × String) :=
  match req.origin with
  | none => .ok (false, "")
  | some origin =>
      match Text.splitOnce origin "://" with
      | none => .error ⟨.badRequest, "Cannot parse ORIGIN header"⟩
      | some (scheme, url) =>
          let schemeOk :=
            if data.proxyMode && scheme == "https" then true
            else match data.listenScheme with
              | .http => scheme == "http"
              | .https => scheme == "https"
              | .httpHttps => scheme == "http" || scheme == "https"
          if !schemeOk then .error ⟨.badRequest, "The scheme of the ORIGIN header does not match"⟩
          else .ok (data.publicUrl != url, origin)

/-- `Client::validate_origin`: the value of the `Access-Control-Allow-Origin` header. -/
def validateOrigin (data : AppState) (c : Client) (req : HttpRequest) :
    Except ErrorResponse (Option String) := do
  let (isExt, origin) ← isOriginExternal data req
  if !isExt then return none
  let allowed := match c.allowedOrigins with
    | none => []
    | some origins => (Text.split ',' origins).filter fun ao =>
        if data.listenScheme = ListenScheme.httpHttps then Text.endsWith ao origin else ao == origin
  if allowed.isEmpty then
    .error ⟨.badRequest, "Coming from an external Origin '" ++ origin ++ "' which is not allowed"⟩
  else return some origin

def matchesRedirectUri (uri redirectUri : String) : Bool :=
  (Text.endsWith uri "*" &&
    match Text.splitOnce uri "*" with
    | some (start, _) => Text.startsWith redirectUri start
    | none => false) || uri == redirectUri

def validateRedirectUri (c : Client) (redirectUri : String) : Except ErrorResponse Unit :=
  if c.getRedirectUris.any (matchesRedirectUri · redirectUri) then .ok ()
  else .error ⟨.badRequest, "Invalid redirect uri"⟩

def validateCodeChallenge (c : Client) (codeChallenge codeChallengeMethod : Option String) :
    Except ErrorResponse Unit :=
  match c.challenge with
  | some challenge =>
      match codeChallenge, codeChallengeMethod with
      | none, _ => .error ⟨.badRequest, "'code_challenge' is missing"⟩
      | some _, none => .error ⟨.badRequest, "'code_challenge_method' is missing"⟩
      | some _, some method =>
          if Text.contains challenge method then .ok ()
          else .error ⟨.badRequest, "code_challenge_method '" ++ method ++ "' is not allowed"⟩
  | none =>
      if codeChallenge.isSome || codeChallengeMethod.isSome then
        .error ⟨.badRequest, "'code_challenge' not enabled for this client"⟩
      else .ok ()

def validateChallengeMethod (c : Client) (method : String) : Except ErrorResponse Unit :=
  match c.challenge with
  | none => .error ⟨.badRequest, "'code_challenge' not allowed"⟩
  | some challenge =>
      if method = "" ∨ ¬ Text.contains challenge method then
        .error ⟨.badRequest, "code_challenge_method '" ++ method ++ "' is not allowed"⟩
      else .ok ()

/-- The flow has to occur in the text of the enabled flows. -/
def validateFlow (c : Client) (flow : String) : Except ErrorResponse Unit :=
  if flow = "" ∨ ¬ Text.contains c.flowsEnabled flow then
    .error ⟨.badRequest, "'" ++ flow ++ "' flow is not allowed for this client"⟩
  else .ok ()

def validateSecret (data : AppState) (c : Client) (secret : String) : Except ErrorResponse Unit := do
  if !c.confidential then
    .error ⟨.internal, "Cannot validate 'client_secret' for public client"⟩
  match c.secret with
  | none => .error ⟨.internal, "'" ++ c.id ++ "' has no secret while being confidential"⟩
  | some enc =>
      let cleartext ← data.decrypt enc
      if cleartext ≠ Text.asBytes secret then .error ⟨.unauthorized, "Invalid 'client_secret'"⟩

/-- `Client::sanitize_scopes`: `openid` is always there. -/
def sanitizeScopes (scps : List String) : M ErrorResponse String := do
  let scopes ← Scope.findAll
  let res := pushNames (scopes.map Scope.name) scps
  let res := if res = "" then res else removeLast res
  return if res = "" then "openid"
    else if !Text.contains res "openid" then "openid," ++ res
    else res

end Client

/-! ### Dynamic clients -/

def ClientDyn.updateUsed (id : String) : M ErrorResponse Unit := do
  let now ← unixTimestamp
  execute [.update .clientsDyn (fun r => r.id == id) fun r => { r with lastUsed := some now }]

/-- `if client.is_dynamic() { ClientDyn::update_used(..) }` -/
def Client.updateUsed (c : Client) : M ErrorResponse Unit :=
  if c.isDynamic then ClientDyn.updateUsed c.id else return ()

/-! ### Updates by an admin -/

structure UpdateClientRequest where
  id : String
  name : Option String
  confidential : Bool
  redirectUris : List String
  postLogoutRedirectUris : Option (List String)
  allowedOrigins : Option (List String)
  enabled : Bool
  flowsEnabled : List String
  accessTokenAlg : String
  idTokenAlg : String
  refreshToken : Bool
  authCodeLifetime : Int
  accessTokenLifetime : Int
  scopes : List String
  defaultScopes : List String
  challenges : Option (List String)
  forceMfa : Bool
  clientUri : Option String
  contacts : Option (List String)
  deriving DecidableEq, Inhabited

/-- `Client::generate_new_secret`: the cleartext and its encryption. -/
def Client.generateNewSecret (data : AppState) : M ErrorResponse (String × Bytes) := do
  let rnd ← getRand 64
  let enc ← answer (data.encrypt (Text.asBytes rnd))
  return (rnd, enc)

/-- The secret after an update: new if the client becomes confidential, none if it is
public. -/
def Client.newSecret (data : AppState) (c : Client) (confidential : Bool) :
    M ErrorResponse (Option Bytes) :=
  if confidential then
    if c.confidential then return c.secret
    else do
      let (_, enc) ← Client.generateNewSecret data
      return some enc
  else return none

def updateClient (data : AppState) (id : String) (req : UpdateClientRequest) :
    M ErrorResponse Client := do
  let client ← Client.find id
  throwIf (client.id ≠ req.id) (err .badRequest "The 'id' cannot be changed")
  let secret ← client.newSecret data req.confidential
  let scopes ← Client.sanitizeScopes req.scopes
  let defaultScopes ← Client.sanitizeScopes req.defaultScopes
  let client : Client := { client with
    name := req.name
    secret
    confidential := req.confidential
    redirectUris := Text.join "," req.redirectUris
    postLogoutRedirectUris := req.postLogoutRedirectUris.map (Text.join ",")
    allowedOrigins := (req.allowedOrigins.map (Text.join ",")).or client.allowedOrigins
    enabled := req.enabled
    flowsEnabled := Text.join "," req.flowsEnabled
    accessTokenAlg := req.accessTokenAlg
    idTokenAlg := req.idTokenAlg
    refreshToken := req.refreshToken
    authCodeLifetime := req.authCodeLifetime
    accessTokenLifetime := req.accessTokenLifetime
    scopes
    defaultScopes
    challenge := req.challenges.map (Text.join ",")
    forceMfa := req.forceMfa
    contacts := req.contacts.map (Text.join ",")
    clientUri := req.clientUri }
  client.save
  return client

structure ClientSecretResponse where
  id : String
  confidential : Bool
  secret : Option String
  deriving DecidableEq, Inhabited

/-- `generate_new_secret`; the client becomes confidential. -/
def generateNewSecret (data : AppState) (id : String) : M ErrorResponse ClientSecretResponse := do
  let client ← Client.find id
  let (clear, enc) ← Client.generateNewSecret data
  let client : Client := { client with confidential := true, secret := some enc }
  client.save
  return { id := client.id, confidential := true, secret := some clear }

structure NewClientRequest where
  id : String
  name : Option String
  confidential : Bool
  redirectUris : List String
  postLogoutRedirectUris : Option (List String)
  deriving DecidableEq, Inhabited

/-- `Client::from(NewClientRequest)`, with the secret and the id of its key. -/
def NewClientRequest.client (req : NewClientRequest) (secret : Option Bytes)
    (kid : Option String) : Client where
  id := req.id
  name := req.name
  enabled := true
  confidential := req.confidential
  secret := secret
  secretKid := kid
  redirectUris := Text.join "," req.redirectUris
  postLogoutRedirectUris := req.postLogoutRedirectUris.map (Text.join ",")
  allowedOrigins := none
  flowsEnabled := "authorization_code"
  accessTokenAlg := "EdDSA"
  idTokenAlg := "EdDSA"
  refreshToken := false
  authCodeLifetime := 60
  accessTokenLifetime := 1800
  scopes := "openid,email,profile,groups"
  defaultScopes := "openid"
  challenge := some "S256"
  forceMfa := false
  clientUri := none
  contacts := none

/-- The secret and its key of a client that is created. -/
def Client.firstSecret (data : AppState) (confidential : Bool) :
    M ErrorResponse (Option Bytes × Option String) :=
  if confidential then do
    let (_, enc) ← Client.generateNewSecret data
    return (some enc, some data.encKeyActive)
  else return (none, none)

/-- `Client::create` -/
def Client.create (data : AppState) (req : NewClientRequest) : M ErrorResponse Client := do
  let (secret, kid) ← Client.firstSecret data req.confidential
  let client := req.client secret kid
  execute [.insert .clients client]
  return client

/-- `ClientDyn::get_cache_entry` -/
def ClientDyn.getCacheEntry (id : String) : String := "client_dyn_" ++ id

/-- `DELETE FROM clients WHERE id = $1`, with the rows that the foreign keys delete along: that of a
dynamic client, the devices of the client and their refresh tokens. -/
def Client.deleteStmts (id : String) : List DbWrite :=
  [.delete .clients fun r => r.id == id,
   .delete .clientsDyn fun r => r.id == id,
   .cascade .refreshTokensDevices fun db rt =>
     (db .devices).any fun d => d.clientId == id && d.id == rt.deviceId,
   .delete .devices fun d => d.clientId == id]

/-- `Client::delete` -/
def Client.delete (c : Client) : M ErrorResponse Unit := do
  execute (deleteStmts c.id)
  cacheDel .c12hr (Client.getCacheEntry c.id)
  runIf (c.isDynamic = true) (cacheDel .c12hr (ClientDyn.getCacheEntry c.id))

/-- `delete_client` -/
def deleteClient (id : String) : M ErrorResponse Unit := do
  throwIf (id = "rauthy") (err .badRequest "The `rauthy` client must not be deleted")
  let client ← Client.find id
  client.delete

/-! ### Dynamic registration -/

structure DynamicClientRequest where
  redirectUris : List String
  grantTypes : List String
  clientName : Option String
  clientUri : Option String
  contacts : Option (List String)
  idTokenSignedResponseAlg : Option JwkKeyPairAlg
  tokenEndpointAuthMethod : Option String
  tokenEndpointAuthSigningAlg : Option JwkKeyPairAlg
  postLogoutRedirectUri : Option String
  deriving DecidableEq, Inhabited

structure DynamicClientResponse where
  clientId : String
  clientName : Option String
  clientUri : Option String
  contacts : Option (List String)
  clientSecret : Option String
  redirectUris : List String
  postLogoutRedirectUri : Option String
  registrationAccessToken : Option String
  registrationClientUri : Option String
  grantTypes : List String
  idTokenSignedResponseAlg : String
  tokenEndpointAuthMethod : String
  tokenEndpointAuthSigningAlg : String
  deriving DecidableEq, Inhabited

/-- `Client::get_secret_cleartext` -/
def Client.getSecretCleartext (data : AppState) (c : Client) :
    Except ErrorResponse (Option String) :=
  match c.secret with
  | none => .ok none
  | some secret => (data.decrypt secret).map fun bytes => some (data.fromUtf8Lossy bytes)

/-- `Client::try_from_dyn_reg` -/
def Client.tryFromDynReg (data : AppState) (req : DynamicClientRequest) : M ErrorResponse Client := do
  let rnd ← getRand 16
  let confidential := req.tokenEndpointAuthMethod ≠ some "none"
  let (secret, secretKid) ← Client.firstSecret data confidential
  return {
    id := "dyn$" ++ rnd
    name := req.clientName
    enabled := true
    confidential
    secret
    secretKid
    redirectUris := Text.join "," req.redirectUris
    postLogoutRedirectUris := req.postLogoutRedirectUri
    allowedOrigins := none
    flowsEnabled := Text.join "," req.grantTypes
    accessTokenAlg := (req.tokenEndpointAuthSigningAlg.getD .edDSA).asStr
    idTokenAlg := (req.idTokenSignedResponseAlg.getD .edDSA).asStr
    refreshToken := decide ("refresh_token" ∈ req.grantTypes)
    authCodeLifetime := 60
    accessTokenLifetime := data.dynClientDefaultTokenLifetime
    scopes := "openid,email,profile,groups"
    defaultScopes := "openid"
    challenge := if confidential then some "S256" else none
    forceMfa := false
    clientUri := req.clientUri
    contacts := req.contacts.map (Text.join ",") }

namespace ClientDyn

/-- `ClientDyn::create` inside a transaction, with the statement for its commit -/
def create (data : AppState) (id tokenEndpointAuthMethod : String) :
    M ErrorResponse (ClientDyn × DbWrite) := do
  let (_, registrationToken) ← Client.generateNewSecret data
  let created ← unixTimestamp
  let slf : ClientDyn :=
    { id, created, lastUsed := none, registrationToken, tokenEndpointAuthMethod }
  execute []
  return (slf, .insert .clientsDyn slf)

/-- The token after an update: a new one if the tokens are rotated. -/
def nextToken (data : AppState) (slf : ClientDyn) : M ErrorResponse Bytes :=
  if data.dynClientSecretAutoRotate then do
    let (_, registrationToken) ← Client.generateNewSecret data
    return registrationToken
  else return slf.registrationToken

/-- `ClientDyn::update` inside a transaction, with the statement for its commit -/
def update (data : AppState) (slf : ClientDyn) (tokenEndpointAuthMethod : String) :
    M ErrorResponse (ClientDyn × DbWrite) := do
  let now ← unixTimestamp
  let registrationToken ← slf.nextToken data
  let slf := { slf with tokenEndpointAuthMethod, lastUsed := some now, registrationToken }
  execute []
  cachePut .c12hr (getCacheEntry slf.id) (.clientDyn slf)
  return (slf, .update .clientsDyn (fun r => r.id == slf.id) fun r =>
    { r with registrationToken, tokenEndpointAuthMethod, lastUsed := some now })

def registrationTokenPlain (data : AppState) (slf : ClientDyn) : Except ErrorResponse String := do
  let bytes ← data.decrypt slf.registrationToken
  return data.fromUtf8Lossy bytes

def registrationClientUri (data : AppState) (id : String) : String :=
  data.issuer ++ "/clients_dyn/" ++ id

end ClientDyn

/-- `DynamicClientResponse::build` -/
def DynamicClientResponse.build (data : AppState) (client : Client) (clientDyn : ClientDyn)
    (mapRegistrationClientUri : Bool) : Except ErrorResponse DynamicClientResponse := do
  let clientSecret ← client.getSecretCleartext data
  let token ← if mapRegistrationClientUri then some <$> clientDyn.registrationTokenPlain data
    else .ok none
  return {
    clientId := client.id
    clientName := client.name
    clientUri := client.clientUri
    contacts := client.contacts.map (Text.split ',')
    clientSecret
    redirectUris := client.getRedirectUris
    -- the source takes the first redirect URI here
    postLogoutRedirectUri := client.getRedirectUris.head?
    registrationAccessToken := token
    registrationClientUri :=
      if mapRegistrationClientUri then some (ClientDyn.registrationClientUri data clientDyn.id)
      else none
    grantTypes := (Text.split ',' client.flowsEnabled).map Text.trim
    idTokenSignedResponseAlg := client.idTokenAlg
    tokenEndpointAuthMethod := clientDyn.tokenEndpointAuthMethod
    tokenEndpointAuthSigningAlg := client.accessTokenAlg }

/-- `Client::create_dynamic` -/
def Client.createDynamic (data : AppState) (req : DynamicClientRequest) :
    M ErrorResponse DynamicClientResponse := do
  let method := req.tokenEndpointAuthMethod.getD "client_secret_basic"
  let client ← Client.tryFromDynReg data req
  execute []
  let (clientDyn, stmt) ← ClientDyn.create data client.id method
  execute [.insert .clients client, stmt]
  answer (DynamicClientResponse.build data client clientDyn true)

/-- `Client::save` inside a transaction, with the statement for its commit: the caches are filled
before. -/
def Client.saveTxn (c : Client) : M ErrorResponse DbWrite := do
  execute []
  cachePut .c12hr (getCacheEntry c.id) (.client c)
  let all ← findAll
  let clients := all.map fun r => if r.id = c.id then c else r
  cachePut .c12hr "clients_" (.clients (if all.any (·.id == c.id) then clients else clients ++ [c]))
  return c.saveStmt

/-- `Client::update_dynamic` -/
def Client.updateDynamic (data : AppState) (req : DynamicClientRequest) (clientDyn : ClientDyn) :
    M ErrorResponse DynamicClientResponse := do
  let method := req.tokenEndpointAuthMethod.getD "client_secret_basic"
  let newClient ← Client.tryFromDynReg data req
  let current ← Client.find clientDyn.id
  throwIf (current.isDynamic = false) (err .forbidden "Invalid request for non-dynamic client")
  -- some old and possibly user-modified values are kept
  let newClient : Client := { newClient with
    id := current.id
    forceMfa := current.forceMfa
    scopes := current.scopes
    defaultScopes := current.defaultScopes }
  let stmt ← newClient.saveTxn
  let (clientDyn, stmtDyn) ← clientDyn.update data method
  execute [stmt, stmtDyn]
  answer (DynamicClientResponse.build data newClient clientDyn data.dynClientSecretAutoRotate)

/-! ### What they write -/

section Touches

variable {id : String}

theorem Client.generateNewSecret_touches (data : AppState) :
    Touches [] [] (Client.generateNewSecret data) :=
  touches_bind (touches_getRand _) fun _ => touches_bind (touches_answer _) fun _ => touches_ret _

theorem Client.firstSecret_touches (data : AppState) (b : Bool) :
    Touches [] [] (Client.firstSecret data b) := by
  unfold Client.firstSecret
  split
  · exact touches_bind (Client.generateNewSecret_touches data) fun _ => touches_ret _
  · exact touches_ret _

theorem Client.newSecret_touches (data : AppState) (c : Client) (b : Bool) :
    Touches [] [] (c.newSecret data b) := by
  unfold Client.newSecret
  split
  · split
    · exact touches_ret _
    · exact touches_bind (Client.generateNewSecret_touches data) fun _ => touches_ret _
  · exact touches_ret _

theorem Client.tryFromDynReg_touches (data : AppState) (req : DynamicClientRequest) :
    Touches [] [] (Client.tryFromDynReg data req) :=
  touches_bind (touches_getRand _) fun _ =>
    touches_bind (Client.firstSecret_touches data _) fun _ => touches_ret _

theorem ClientDyn.update_touches (data : AppState) (slf : ClientDyn) (method : String) :
    Touches [] [(.c12hr, .clientDyn)] (slf.update data method) := by
  refine touches_bind touches_unixTimestamp fun _ => touches_bind ?_ fun _ => ?_
  · unfold ClientDyn.nextToken
    split
    · exact touches_bind ((Client.generateNewSecret_touches data).mono (by simp) (by simp))
        fun _ => touches_ret _
    · exact touches_ret _
  · refine touches_bind (touches_execute (by simp)) fun _ => ?_
    exact touches_bind (touches_cachePut (by simp [CacheVal.slot]) _) fun _ => touches_ret _

theorem Client.find_touches (id : String) : Touches [] [(.c12hr, .client)] (Client.find id) := by
  refine touches_bind (touches_cacheGet _ _ _) fun x => ?_
  rcases x with - | c
  · refine touches_bind (touches_fetchOne _ _) fun c => ?_
    exact touches_bind (touches_cachePut (by simp [CacheVal.slot]) _) fun _ => touches_ret _
  · exact touches_ret _

/-- The client is cached, or it is in the table. -/
def ClientKnown (w : World) (id : String) (c : Client) : Prop :=
  w.cache .c12hr (Client.getCacheEntry id) = some (.client c) ∨
  ((w.db .clients).filter fun c => c.id == id).head? = some c

theorem Client.exec_find_known {w : World} {c : Client} :
    (∃ w', Exec sem (Client.find id) w (.ok c) w') ↔ ClientKnown w id c := by
  constructor
  · rintro ⟨w', h⟩
    obtain ⟨x, w₁, hget, hrest⟩ := exec_bind_ok.mp h
    rcases exec_cacheGet.mp hget with ⟨rfl, hw₁⟩ | ⟨a, v, rfl, hv, ha, rfl⟩
    · obtain ⟨row, w₂, hrow, hrest⟩ := exec_bind_ok.mp hrest
      obtain ⟨_, _, -, hret, -⟩ := exec_bind_ok.mp hrest
      cases hret
      have hdb : w₁.db = w.db := by rcases hw₁ with rfl | ⟨-, rfl⟩ <;> rfl
      exact .inr (hdb ▸ (exec_fetchOne.mp hrow).1)
    · have hret : c = a := Except.ok.inj (exec_ret.mp hrest).1
      rw [CacheVal.client?_eq_some.mp ha] at hv
      exact .inl (hret ▸ hv)
  · rintro (hv | hrow)
    · refine ⟨w, exec_bind_ok.mpr ⟨some c, w, exec_cacheGet.mpr (.inr ?_), rfl, rfl⟩⟩
      exact ⟨c, .client c, rfl, hv, rfl, rfl⟩
    · refine ⟨(w.del .c12hr (Client.getCacheEntry id)).put .c12hr (Client.getCacheEntry c.id)
        (.client c), ?_⟩
      refine exec_bind_ok.mpr ⟨none, w.del .c12hr (Client.getCacheEntry id),
        exec_cacheGet.mpr (.inl ⟨rfl, .inl rfl⟩), ?_⟩
      refine exec_bind_ok.mpr ⟨c, w.del .c12hr (Client.getCacheEntry id),
        exec_fetchOne.mpr ⟨hrow, rfl⟩, ?_⟩
      exact exec_bind_ok.mpr ⟨(), _, exec_cachePut.mpr rfl, rfl, rfl⟩

theorem Client.findMaybeEphemeral_touches (data : AppState) (id : String) :
    Touches [] [(.c12hr, .client), (.ephemeralClients, .client)]
      (Client.findMaybeEphemeral data id) := by
  unfold Client.findMaybeEphemeral
  split
  · exact (Client.find_touches id).mono (by simp) (by simp)
  · refine touches_cached ?_ (by simp [CacheVal.slot])
    refine touches_bind ⟨trivial, fun x => touches_answer x⟩ fun _ => ?_
    exact touches_bind (touches_throwIf _ _) fun _ => touches_ret _

/-- The tables from which rows are deleted along with a client. -/
def Client.deleteTables : List Table := [.clients, .clientsDyn, .refreshTokensDevices, .devices]

theorem Client.deleteStmts_table {s : DbWrite} (hs : s ∈ Client.deleteStmts id) :
    s.table ∈ Client.deleteTables := by
  simp only [Client.deleteStmts, List.mem_cons, List.not_mem_nil, or_false] at hs
  rcases hs with rfl | rfl | rfl | rfl <;> simp [DbWrite.table, Client.deleteTables]

theorem Client.not_deleteStmts_table {t : Table} (ht : t ∉ Client.deleteTables) :
    ∀ s ∈ Client.deleteStmts id, s.table ≠ t :=
  fun _ hs he => ht (he ▸ Client.deleteStmts_table hs)

theorem Client.deleteStmts_clients {db db' : Db}
    (h : applyAll (Client.deleteStmts id) db = some db') :
    db' .clients = (db .clients).filter fun r => !(r.id == id) := by
  simp only [Client.deleteStmts, applyAll, DbWrite.apply, Option.bind_some, Option.some.injEq] at h
  rw [← h]
  rfl

theorem Client.updateUsed_touches (c : Client) : Touches [.clientsDyn] [] c.updateUsed := by
  unfold Client.updateUsed
  split
  · exact touches_bind touches_unixTimestamp fun _ =>
      touches_execute (by simp [DbWrite.table])
  · exact touches_ret _

end Touches

/-! ### What they have seen -/

open Pool in
/-- A client that is found was cached under its key, or has the id. -/
theorem Client.sees_find {G : List (Seen Op Op.Res) → Seen Op Op.Res → Prop}
    {tr : List (Seen Op Op.Res)} {id : String} (hG : Allows G [] [])
    (hput : ∀ tr c x, c.id = id → G tr ⟨.cachePut .c12hr (Client.getCacheEntry id) (.client c), x⟩) :
    Sees Op.Possible G (Client.find id) (fun c tr' =>
      ⟨.cacheGet .c12hr (Client.getCacheEntry id), .ok (some (.client c))⟩ ∈ tr' ∨ c.id = id) tr := by
  refine sees_bind (sees_cacheGet fun x => hG (.cacheGet _ _) trivial trivial tr x) fun x tr₁ _ hx => ?_
  obtain ⟨y, htr₁, ⟨rfl, rfl⟩ | ⟨v, c, rfl, rfl, hc⟩⟩ := hx
  · refine sees_bind (sees_fetchOne fun x => hG (.select _ _) trivial trivial tr₁ x) fun c tr₂ _ hc => ?_
    have hid : c.id = id := by simpa using hc.2
    refine sees_bind (sees_cachePut fun x => ?_) fun _ tr₃ _ _ => sees_ret (.inr hid)
    rw [hid]
    exact hput tr₂ c x hid
  · refine sees_ret (.inl ?_)
    rw [htr₁, CacheVal.client?_eq_some.mp hc]
    exact List.mem_cons_self

end Rauthy
