/-
Rauthy/AuthProviders.lean

`rauthy-models/src/entity/auth_providers.rs`: the end of a login with an upstream
provider.  The provider's claims find, link, update or create a user; then the login
goes on as in `Rauthy.Auth`, except that the provider may have reported an MFA login.
-/
import Rauthy.Auth

namespace Rauthy

open Prog

namespace CacheVal

def authProvider? : CacheVal → Option AuthProvider
  | authProvider v => some v
  | _ => none

def authProviders? : CacheVal → Option (List AuthProvider)
  | authProviders v => some v
  | _ => none

def authProviderCallback? : CacheVal → Option AuthProviderCallback
  | authProviderCallback v => some v
  | _ => none

end CacheVal

structure ProviderRequest where
  name : String
  typ : AuthProviderType
  enabled : Bool
  issuer : String
  authorizationEndpoint : String
  tokenEndpoint : String
  userinfoEndpoint : String
  dangerAllowInsecure : Option Bool
  usePkce : Bool
  clientId : String
  clientSecret : Option String
  scope : String
  rootPem : Option String
  adminClaimPath : Option String
  adminClaimValue : Option String
  mfaClaimPath : Option String
  mfaClaimValue : Option String
  deriving DecidableEq, Inhabited

namespace AuthProvider

def cacheIdx (id : String) : String := "auth_provider__" ++ id

def find (id : String) : M ErrorResponse AuthProvider :=
  cached .c12hr (cacheIdx id) CacheVal.authProvider? .authProvider
    (fetchOne .authProviders fun p => p.id == id)

def findAll : M ErrorResponse (List AuthProvider) :=
  cached .c12hr (cacheIdx "all") CacheVal.authProviders? .authProviders
    (select .authProviders fun _ => true)

/-- `AuthProviderTemplate::get_all_json_template`: the enabled providers, for the login page;
no text if there are none. -/
def getAllJsonTemplate (data : AppState) : M ErrorResponse Bytes :=
  cached .c12hr "provider_json_tpl" CacheVal.bytes? .bytes (do
    let all ← findAll
    let providers := (all.filter AuthProvider.enabled).map fun p => (p.id, p.name)
    return if providers.isEmpty then [] else Text.asBytes (data.providersJson providers))

/-- `AuthProvider::invalidate_cache_all`, with `AuthProviderTemplate::update_cache` -/
def invalidateCacheAll (data : AppState) : M ErrorResponse Unit := do
  cacheDel .c12hr (cacheIdx "all")
  cacheDel .c12hr "provider_json_tpl"
  let _ ← getAllJsonTemplate data
  return ()

/-- `DELETE FROM auth_providers WHERE id = $1`; the foreign key unlinks the users. -/
def deleteStmts (id : String) : List DbWrite :=
  [.delete .authProviders fun p => p.id == id,
   .update .users (fun u => u.authProviderId == some id) fun u => { u with authProviderId := none }]

def delete (data : AppState) (id : String) : M ErrorResponse Unit := do
  execute (deleteStmts id)
  invalidateCacheAll data
  cacheDel .c12hr (cacheIdx id)

/-- The pieces between blanks, without the empty ones. -/
def cleanupScope (scope : String) : String :=
  Text.join "+" (((Text.split ' ' scope).filter (· ≠ "")).map Text.trim)

def secretEncrypted (data : AppState) : Option String → Except ErrorResponse (Option Bytes)
  | some secret => some <$> data.encrypt (Text.asBytes secret)
  | none => .ok none

def getSecretCleartext (data : AppState) : Option Bytes → Except ErrorResponse (Option String)
  | some secret => do
      let bytes ← data.decrypt secret
      return some (data.fromUtf8Lossy bytes)
  | none => .ok none

def tryFromIdReq (data : AppState) (id : String) (req : ProviderRequest) :
    Except ErrorResponse AuthProvider := do
  let secret ← secretEncrypted data req.clientSecret
  return {
    id
    name := req.name
    enabled := req.enabled
    typ := req.typ
    issuer := req.issuer
    authorizationEndpoint := req.authorizationEndpoint
    tokenEndpoint := req.tokenEndpoint
    userinfoEndpoint := req.userinfoEndpoint
    clientId := req.clientId
    secret
    scope := cleanupScope req.scope
    adminClaimPath := req.adminClaimPath
    adminClaimValue := req.adminClaimValue
    mfaClaimPath := req.mfaClaimPath
    mfaClaimValue := req.mfaClaimValue
    allowInsecureRequests := req.dangerAllowInsecure.getD false
    usePkce := req.usePkce
    rootPem := req.rootPem }

def create (data : AppState) (payload : ProviderRequest) : M ErrorResponse AuthProvider := do
  let id ← newStoreId
  let slf ← answer (tryFromIdReq data id payload)
  execute [.insert .authProviders slf]
  invalidateCacheAll data
  cachePut .c12hr (cacheIdx slf.id) (.authProvider slf)
  return slf

/-- The statement of `save`: all columns but the id. -/
def saveStmt (p : AuthProvider) : DbWrite :=
  .update .authProviders (fun r => r.id == p.id) fun r => { p with id := r.id }

def save (data : AppState) (p : AuthProvider) : M ErrorResponse Unit := do
  execute [p.saveStmt]
  invalidateCacheAll data
  cachePut .c12hr (cacheIdx p.id) (.authProvider p)

def update (data : AppState) (id : String) (payload : ProviderRequest) : M ErrorResponse Unit := do
  let slf ← answer (tryFromIdReq data id payload)
  slf.save data

end AuthProvider

namespace AuthProviderCallback

def delete (callbackId : String) : M ErrorResponse Unit :=
  cacheDel .authProviderCallback callbackId

def find (callbackId : String) : M ErrorResponse AuthProviderCallback := do
  let res ← cacheGet .authProviderCallback callbackId CacheVal.authProviderCallback?
  okOr (err .notFound "Callback Code not found - timeout reached?") res

end AuthProviderCallback

inductive ProviderMfaLogin where
  | yes
  | no
  deriving DecidableEq

/-- The content of a link cookie. -/
structure AuthProviderLinkCookie where
  providerId : String
  userId : String
  userEmail : String
  deriving DecidableEq, Inhabited

structure ProviderLoginRequest where
  -- values for the downstream client
  email : Option String
  clientId : String
  redirectUri : String
  scopes : Option (List String)
  state : Option String
  nonce : Option String
  codeChallenge : Option String
  codeChallengeMethod : Option String
  -- values for the callback from upstream
  providerId : String
  pkceChallenge : String
  deriving DecidableEq, Inhabited

structure ProviderCallbackRequest where
  state : String
  code : String
  xsrfToken : String
  pkceVerifier : String
  deriving DecidableEq, Inhabited

/-! ### The start of the login -/

/-- `PROVIDER_CALLBACK_URI_ENCODED`: the colons and slashes of the URI are encoded. -/
def encodeCallbackUri (uri : String) : String :=
  String.ofList (uri.toList.flatMap fun c =>
    if c = ':' then ['%', '3', 'A'] else if c = '/' then ['%', '2', 'F'] else [c])

/-- `AuthProviderCallback::save` -/
def AuthProviderCallback.save (slf : AuthProviderCallback) : M ErrorResponse Unit :=
  cachePut .authProviderCallback slf.callbackId (.authProviderCallback slf)

/-- Where the browser is sent. -/
def providerLocation (callbackUri : String) (provider : AuthProvider) (slf : AuthProviderCallback) :
    String :=
  let location := provider.authorizationEndpoint ++ "?client_id=" ++ provider.clientId ++
    "&redirect_uri=" ++ encodeCallbackUri callbackUri ++ "&response_type=code&scope=" ++
    provider.scope ++ "&state=" ++ slf.callbackId
  if provider.usePkce then
    location ++ "&code_challenge=" ++ slf.pkceChallenge ++ "&code_challenge_method=S256"
  else location

/-- `AuthProviderCallback::login_start`: the value of the cookie, the XSRF token and the
location. -/
def loginStart (data : AppState) (callbackUri : String) (payload : ProviderLoginRequest) :
    M ErrorResponse (String × String × String) := do
  let provider ← AuthProvider.find payload.providerId
  let client ← Client.find payload.clientId
  let callbackId ← getRand 32
  let xsrfToken ← getRand 32
  let slf : AuthProviderCallback := {
    callbackId, xsrfToken
    typ := provider.typ
    reqClientId := client.id
    reqScopes := payload.scopes
    reqRedirectUri := payload.redirectUri
    reqState := payload.state
    reqNonce := payload.nonce
    reqCodeChallenge := payload.codeChallenge
    reqCodeChallengeMethod := payload.codeChallengeMethod
    providerId := provider.id
    pkceChallenge := payload.pkceChallenge }
  let location := providerLocation callbackUri provider slf
  let idEnc ← answer (data.encrypt (Text.asBytes slf.callbackId))
  slf.save
  return (data.base64Encode idEnc, slf.xsrfToken, location)

/-! ### The claims of the provider -/

namespace AuthProviderIdClaims

def givenNameOf (c : AuthProviderIdClaims) : String :=
  match c.givenName, c.name with
  | some n, _ => n
  | none, some n => ((Text.splitOnce n " ").getD ("N/A", "N/A")).1
  | none, none => "N/A"

def familyNameOf (c : AuthProviderIdClaims) : String :=
  match c.familyName, c.name with
  | some n, _ => n
  | none, some n => ((Text.splitOnce n " ").getD ("N/A", "N/A")).2
  | none, none => "N/A"

/-- The id of the user at the provider. -/
def userIdOf (c : AuthProviderIdClaims) : Option String := (c.sub.or c.id).or c.uid

/-- A value of a claim as it is compared: also a number or a bool is taken as a string. -/
def claimText (v : JsonValue) : String :=
  if v.isString then v.text else "\"" ++ v.text ++ "\""

/-- The claim at a configured path has the configured value; `none` without a path or
with a malformed one. -/
def hasClaim (data : AppState) (c : AuthProviderIdClaims) (what : String)
    (path value : Option String) : Except ErrorResponse (Option Bool) :=
  match path with
  | none => .ok none
  | some path =>
      match value with
      | none => .error ⟨.internal,
          "Misconfigured Auth Provider - " ++ what ++ " claim path without value"⟩
      | some value =>
          .ok ((data.jsonPath path c.jsonBytes).map fun vs =>
            vs.any fun v => claimText v == data.jsonText value)

/-- The link of an existing user to the provider. -/
def linkUser (provider : AuthProvider) (linkCookie : Option AuthProviderLinkCookie)
    (claimsUserId : String) (user : User) : Except ErrorResponse User :=
  match linkCookie with
  | none => .error ⟨.forbidden,
      "User with email '" ++ user.email ++ "' already exists but is not linked to this provider."⟩
  | some link =>
      if link.providerId ≠ provider.id then .error ⟨.badRequest, "bad provider_id in link cookie"⟩
      else if link.userId ≠ user.id then .error ⟨.badRequest, "bad user_id in link cookie"⟩
      else if link.userEmail ≠ user.email then .error ⟨.badRequest, "Invalid E-Mail"⟩
      else .ok { user with
        authProviderId := some provider.id, federationUid := some claimsUserId }

/-- The user that the claims belong to, if there is one already. -/
def findUser (data : AppState) (provider : AuthProvider)
    (linkCookie : Option AuthProviderLinkCookie) (email claimsUserId : String) :
    M ErrorResponse (Option User) := do
  match ← attempt (User.findByFederation provider.id claimsUserId) with
  | .ok user => return some user
  | .error _ =>
      match ← attempt (User.findByEmail data email) with
      | .error _ => return none
      | .ok user =>
          let user ← answer (linkUser provider linkCookie claimsUserId user)
          return some user

/-- The roles after the claim for `rauthy_admin` has been applied. -/
def mapRoles (user : User) : Option Bool → String
  | none => user.roles
  | some true =>
      if roleAdmin ∈ user.getRoles then user.roles
      else Text.join "," (roleAdmin :: user.getRoles)
  | some false =>
      if roleAdmin ∈ user.getRoles then
        if user.getRoles.length = 1 then "" else Text.join "," (user.getRoles.filter (· ≠ roleAdmin))
      else user.roles

/-- Why an existing user may not log in with these claims. -/
def forbiddenError (provider : AuthProvider) (claimsUserId : String) (user : User) : Option String :=
  if user.authProviderId ≠ some provider.id then some "invalid login from wrong auth provider"
  else if user.federationUid ≠ some claimsUserId then some "non-federated user or ID mismatch"
  else none

/-- The login of an existing user. -/
def updateUser (data : AppState) (c : AuthProviderIdClaims) (provider : AuthProvider)
    (email claimsUserId : String) (shouldBeAdmin : Option Bool) (now : Int) (user : User) :
    M ErrorResponse User :=
  match forbiddenError provider claimsUserId user with
  | some msg => do
      User.save data { user with
        lastFailedLogin := some now
        failedLoginAttempts := some (user.failedLoginAttempts.getD 0 + 1) } none
      fail (err .forbidden msg)
  | none => do
      let oldEmail := if user.email ≠ email then some user.email else none
      let user := { user with
        email
        givenName := c.givenNameOf
        familyName := c.familyNameOf
        roles := mapRoles user shouldBeAdmin
        lastLogin := some now
        lastFailedLogin := none
        failedLoginAttempts := none }
      user.save data oldEmail
      return user

/-- `Language::from` -/
def languageFrom (s : String) : Language :=
  if s = "de" ∨ s = "de-DE" then .de else .en

/-- A new user from the claims. -/
def createUser (c : AuthProviderIdClaims) (provider : AuthProvider) (email claimsUserId : String)
    (shouldBeAdmin : Option Bool) (now : Int) : M ErrorResponse User := do
  let id ← newStoreId
  let createdAt ← unixTimestamp
  User.createFederated
    { id
      email
      givenName := c.givenNameOf
      familyName := c.familyNameOf
      password := none
      roles := if shouldBeAdmin = some true then roleAdmin else ""
      groups := none
      enabled := true
      emailVerified := c.emailVerified.getD false
      passwordExpires := none
      createdAt
      lastLogin := some now
      lastFailedLogin := none
      failedLoginAttempts := none
      language := (c.locale.map languageFrom).getD .en
      webauthnUserId := none
      userExpires := none
      authProviderId := some provider.id
      federationUid := some claimsUserId }

/-- The user after the login: updated, or created. -/
def loginUser (data : AppState) (c : AuthProviderIdClaims) (provider : AuthProvider)
    (email claimsUserId : String) (shouldBeAdmin : Option Bool) (now : Int) :
    Option User → M ErrorResponse User
  | some user => c.updateUser data provider email claimsUserId shouldBeAdmin now user
  | none => c.createUser provider email claimsUserId shouldBeAdmin now

/-- The values of the user, with those from the claims. -/
def updateValues (c : AuthProviderIdClaims) (values : UserValuesRequest) : UserValuesRequest :=
  { values with
    birthdate := c.birthdate.or values.birthdate
    phone := c.phone.or values.phone
    street := (c.address.bind AuthProviderAddressClaims.streetAddress).or values.street
    zip := (c.address.bind AuthProviderAddressClaims.postalCode).or values.zip
    country := (c.address.bind AuthProviderAddressClaims.country).or values.country }

def saveValues (c : AuthProviderIdClaims) (userId : String) : M ErrorResponse Unit := do
  let values ← UserValues.find userId
  let values : UserValuesRequest := match values with
    | some v => ⟨v.birthdate, v.phone, v.street, v.zip, v.city, v.country⟩
    | none => ⟨none, none, none, none, none, none⟩
  runIf (c.birthdate.isSome || c.phone.isSome || c.address.isSome) (do
    let _ ← UserValues.upsert userId (c.updateValues values)
    return ())

/-- `AuthProviderIdClaims::validate_update_user` -/
def validateUpdateUser (data : AppState) (c : AuthProviderIdClaims) (provider : AuthProvider)
    (linkCookie : Option AuthProviderLinkCookie) : M ErrorResponse (User × ProviderMfaLogin) := do
  let email ← okOr (err .badRequest "No `email` in ID token claims. This is a mandatory claim")
    c.email
  let claimsUserId ← okOr (err .badRequest "Cannot find any user id in the response") c.userIdOf
  let userOpt ← findUser data provider linkCookie email claimsUserId
  let shouldBeAdmin ← answer
    (c.hasClaim data "admin" provider.adminClaimPath provider.adminClaimValue)
  let mfa ← answer (c.hasClaim data "mfa" provider.mfaClaimPath provider.mfaClaimValue)
  let now ← unixTimestamp
  let user ← c.loginUser data provider email claimsUserId shouldBeAdmin now userOpt
  c.saveValues user.id
  return (user, if mfa = some true then .yes else .no)

end AuthProviderIdClaims

/-! ### The end of the login -/

/-- The callback of the login, found by the encrypted cookie and checked against what
the client presents.  A callback that fails a check is deleted. -/
def checkCallback (data : AppState) (req : HttpRequest) (payload : ProviderCallbackRequest) :
    M ErrorResponse AuthProviderCallback := do
  let cookie ← okOr (err .forbidden "Missing encrypted callback cookie") req.upstreamCallbackCookie
  let callbackId ← answer (data.decodeCallbackCookie cookie)
  if callbackId ≠ payload.state then
    AuthProviderCallback.delete callbackId
    fail (err .badRequest "`state` does not match")
  else
    let slf ← AuthProviderCallback.find callbackId
    if slf.xsrfToken ≠ payload.xsrfToken then
      AuthProviderCallback.delete slf.callbackId
      fail (err .unauthorized "invalid CSRF token")
    else if slf.pkceChallenge ≠
        base64UrlEncode data (data.sha256 (Text.asBytes payload.pkceVerifier)) then
      AuthProviderCallback.delete slf.callbackId
      fail (err .unauthorized "invalid PKCE verifier")
    else return slf

/-- A client that forces MFA: the session is marked, unless there is neither a passkey
nor an MFA login upstream. -/
def forceMfaSession (force : Bool) (user : User) (providerMfa : ProviderMfaLogin)
    (session : Session) : M ErrorResponse Session :=
  if force then do
    throwIf (providerMfa = .no ∧ user.hasWebauthnEnabled = false)
      (err .mfaRequired "MFA is required for this client")
    session.setMfa true
  else return session

/-- The code of an upstream login: longer lived only if the client forces MFA. -/
def providerCodeLifetime (data : AppState) (user : User) (client : Client) : Int :=
  if client.forceMfaOf data && user.hasWebauthnEnabled then
    client.authCodeLifetime + data.webauthnReqExp
  else client.authCodeLifetime

/-- `login_finish` from the client of the callback on. -/
def providerLogin (data : AppState) (req : HttpRequest) (slf : AuthProviderCallback) (user : User)
    (providerMfa : ProviderMfaLogin) (session : Session) : M ErrorResponse AuthStep := do
  let client ← Client.findMaybeEphemeral data slf.reqClientId
  let session ← forceMfaSession (client.forceMfaOf data) user providerMfa session
  answer (client.validateRedirectUri slf.reqRedirectUri)
  answer (client.validateCodeChallenge slf.reqCodeChallenge slf.reqCodeChallengeMethod)
  let headerOrigin ← answer (client.validateOrigin data req)
  let code ← AuthCode.new user.id client.id (some session.id) slf.reqCodeChallenge
    slf.reqCodeChallengeMethod slf.reqNonce (client.sanitizeLoginScopes slf.reqScopes)
    (providerCodeLifetime data user client)
  code.save
  let loc := codeLocation slf.reqRedirectUri code.id slf.reqState
  if user.hasWebauthnEnabled then awaitWebauthn data user session false loc headerOrigin
  else return loggedIn user session false loc headerOrigin

/-- `AuthProviderCallback::login_finish` -/
def loginFinish (data : AppState) (req : HttpRequest) (payload : ProviderCallbackRequest)
    (session : Session) : M ErrorResponse AuthStep := do
  let slf ← checkCallback data req payload
  let provider ← AuthProvider.find slf.providerId
  let claims ← call (.exchangeUpstreamCode provider payload.code) answer
  let linkCookie := (req.providerLinkCookie.bind data.decodeLinkCookie).map
    fun c => ({ providerId := c.1, userId := c.2.1, userEmail := c.2.2 } : AuthProviderLinkCookie)
  let (user, providerMfa) ← claims.validateUpdateUser data provider linkCookie
  user.checkEnabled
  user.checkExpired
  -- with a link cookie, the account has just been federated and no code is issued
  if linkCookie.isSome then return .providerLink
  else providerLogin data req slf user providerMfa session

end Rauthy
