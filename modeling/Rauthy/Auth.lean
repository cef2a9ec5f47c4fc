/-
Rauthy/Auth.lean

`rauthy-service/src/auth.rs`: the logins that create authorization codes, and the
grants that exchange codes, device codes, passwords and refresh tokens for token
sets.  Long functions of the source are cut into the named steps they consist of.

The login delay and the logging of the source are left out.
-/
import Rauthy.TokenSet
import Rauthy.Webauthn

namespace Rauthy

open Prog

/-- The headers of an answer. -/
abbrev Headers := List (String × String)

/-! ### Logins -/

structure LoginRequest where
  email : String
  password : Option String
  clientId : String
  redirectUri : String
  scopes : Option (List String)
  state : Option String
  nonce : Option String
  codeChallenge : Option String
  codeChallengeMethod : Option String
  deriving DecidableEq, Inhabited

structure LoginRefreshRequest where
  clientId : String
  redirectUri : String
  scopes : Option (List String)
  state : Option String
  nonce : Option String
  codeChallenge : Option String
  codeChallengeMethod : Option String
  deriving DecidableEq, Inhabited

structure AuthStepLoggedIn where
  hasPasswordBeenHashed : Bool
  email : String
  headerLoc : String
  headerCsrf : String
  headerOrigin : Option String
  deriving DecidableEq, Inhabited

structure AuthStepAwaitWebauthn where
  hasPasswordBeenHashed : Bool
  code : String
  headerCsrf : String
  headerOrigin : Option String
  userId : String
  email : String
  exp : Int
  session : Session
  deriving DecidableEq, Inhabited

inductive AuthStep where
  | loggedIn (step : AuthStepLoggedIn)
  | awaitWebauthn (step : AuthStepAwaitWebauthn)
  | providerLink
  deriving DecidableEq

/-- `WebauthnCookie::parse_validate` -/
def WebauthnCookie.parseValidate (data : AppState) (cookie : Option String) :
    M ErrorResponse WebauthnCookie :=
  match cookie with
  | none => fail (err .badRequest "Webauthn Cookie is missing")
  | some c => do
      let slf ← answer (data.decodeMfaCookie c)
      let ms ← now
      throwIf (slf.exp < ms) (err .sessionExpired "Webauthn Cookie has expired")
      return slf

/-- The MFA cookie, if it is one of this user and the user has passkeys. -/
def mfaCookieOf {ε : Type} (data : AppState) (req : HttpRequest) (user : User) :
    M ε (Option WebauthnCookie) := do
  match ← attempt (WebauthnCookie.parseValidate data req.mfaCookie) with
  | .ok c => return if c.email = user.email && user.hasWebauthnEnabled then some c else none
  | .error _ => return none

/-- The password of a login, if there is one: the user after its login has been
noted, and whether a password has been hashed. -/
def checkLoginPassword (data : AppState) (user : User) (password : Option String) :
    M ErrorResponse (User × Bool) :=
  match password with
  | none => return (user, false)
  | some pwd => do
      user.validatePassword data pwd
      let now ← unixTimestamp
      let user := { user with
        lastLogin := some now, lastFailedLogin := none, failedLoginAttempts := none }
      user.save data none
      return (user, true)

/-- The lifetime of a code: a passkey has to be presented in between. -/
def codeLifetime (data : AppState) (user : User) (client : Client) : Int :=
  if user.hasWebauthnEnabled then client.authCodeLifetime + data.webauthnReqExp
  else client.authCodeLifetime

/-- The location that a login redirects to. -/
def codeLocation (redirectUri code : String) (state : Option String) : String :=
  let loc := redirectUri ++ "?code=" ++ code
  match state with
  | some state => loc ++ "&state=" ++ state
  | none => loc

/-- The code is created and saved, and the rest of the login takes its id. -/
def issueCode (data : AppState) (user : User) (client : Client) (session : Session)
    (challenge challengeMethod nonce : Option String) (scopes : List String) :
    M ErrorResponse AuthCode := do
  let code ← AuthCode.new user.id client.id (some session.id) challenge challengeMethod nonce
    scopes (codeLifetime data user client)
  code.save
  return code

/-- The step of a login that asks for a passkey. -/
def awaitWebauthn (data : AppState) (user : User) (session : Session) (hashed : Bool)
    (loc : String) (headerOrigin : Option String) : M ErrorResponse AuthStep := do
  let code ← getRand 48
  WebauthnLoginReq.save { code, userId := user.id, headerLoc := loc, headerOrigin }
  return .awaitWebauthn
    { hasPasswordBeenHashed := hashed, code, headerCsrf := session.csrfToken, headerOrigin,
      userId := user.id, email := user.email, exp := data.webauthnReqExp, session }

def loggedIn (user : User) (session : Session) (hashed : Bool) (loc : String)
    (headerOrigin : Option String) : AuthStep :=
  .loggedIn { hasPasswordBeenHashed := hashed, email := user.email, headerLoc := loc,
              headerCsrf := session.csrfToken, headerOrigin }

/-- The user of `authorize`, before its password is looked at. -/
def authorizeUser (data : AppState) (req : HttpRequest) (reqData : LoginRequest) :
    M (ErrorResponse × Bool) User := do
  let user ← mapErr (fun _ => (⟨.unauthorized, "Invalid user credentials"⟩, false))
    (User.findByEmail data reqData.email)
  let mfaCookie ← mfaCookieOf data req user
  let userMustProvidePassword :=
    reqData.password.isNone && user.accountType ≠ .passkey && mfaCookie.isNone
  throwIf (userMustProvidePassword = true)
    (.err (⟨.unauthorized, "Invalid user credentials"⟩, false))
  throwIf (user.accountType = .new) (.err (⟨.unauthorized, "Invalid user credentials"⟩, true))
  mapErr (·, true) user.checkEnabled
  mapErr (·, true) user.checkExpired
  return user

/-- The client of `authorize`, validated, and its allowed origin. -/
def authorizeClient (data : AppState) (req : HttpRequest) (reqData : LoginRequest) (user : User)
    (hashed : Bool) : M (ErrorResponse × Bool) (Client × Option String) := do
  let client ← mapErr (·, true) (Client.findMaybeEphemeral data reqData.clientId)
  mapErr (·, hashed) (answer (client.validateMfa user))
  mapErr (·, true) (answer (client.validateRedirectUri reqData.redirectUri))
  mapErr (·, true) (answer
    (client.validateCodeChallenge reqData.codeChallenge reqData.codeChallengeMethod))
  let headerOrigin ← mapErr (·, true) (answer (client.validateOrigin data req))
  return (client, headerOrigin)

/-- The end of `authorize`: with passkeys, the session is marked and a login request
waits for the ceremony. -/
def authorizeStep (data : AppState) (user : User) (session : Session) (hashed : Bool)
    (loc : String) (headerOrigin : Option String) : M ErrorResponse AuthStep :=
  if user.hasWebauthnEnabled then do
    let session ← session.setMfa true
    awaitWebauthn data user session hashed loc headerOrigin
  else return loggedIn user session hashed loc headerOrigin

/-- `authorize`; the second part of an error says whether to add a login delay. -/
def authorize (data : AppState) (req : HttpRequest) (reqData : LoginRequest) (session : Session) :
    M (ErrorResponse × Bool) AuthStep := do
  let user ← authorizeUser data req reqData
  let (user, hashed) ← mapErr (·, true) (checkLoginPassword data user reqData.password)
  let (client, headerOrigin) ← authorizeClient data req reqData user hashed
  let code ← mapErr (·, true) (issueCode data user client session reqData.codeChallenge
    reqData.codeChallengeMethod reqData.nonce (client.sanitizeLoginScopes reqData.scopes))
  let loc := codeLocation reqData.redirectUri code.id reqData.state
  mapErr (·, true) (authorizeStep data user session hashed loc headerOrigin)

/-- The challenge of a request, whose method is `plain` by the specification if it has none. -/
def Client.checkAuthReqChallenge (c : Client) (codeChallenge codeChallengeMethod : Option String) :
    Except ErrorResponse Unit :=
  if c.challenge.isSome then
    if codeChallenge.isNone then .error ⟨.badRequest, "'code_challenge' is missing"⟩
    else c.validateChallengeMethod (codeChallengeMethod.getD "plain")
  else .ok ()

/-- `validate_auth_req_param` -/
def validateAuthReqParam (data : AppState) (req : HttpRequest) (clientId redirectUri : String)
    (codeChallenge codeChallengeMethod : Option String) :
    M ErrorResponse (Client × Option String) := do
  let client ← Client.findMaybeEphemeral data clientId
  let header ← answer (client.validateOrigin data req)
  answer (client.validateRedirectUri redirectUri)
  answer (client.checkAuthReqChallenge codeChallenge codeChallengeMethod)
  return (client, header)

/-- `authorize_refresh`: a new code for a session that is logged in. -/
def authorizeRefresh (data : AppState) (session : Session) (client : Client)
    (headerOrigin : Option String) (reqData : LoginRefreshRequest) : M ErrorResponse AuthStep := do
  let userId ← okOr (err .internal "No linked user_id for already validated session") session.userId
  let user ← User.find userId
  user.checkEnabled
  user.checkExpired
  answer (client.validateMfa user)
  let code ← issueCode data user client session reqData.codeChallenge reqData.codeChallengeMethod
    reqData.nonce (client.sanitizeLoginScopes reqData.scopes)
  let loc := codeLocation reqData.redirectUri code.id reqData.state
  if user.hasWebauthnEnabled && data.sessionRenewMfa then
    awaitWebauthn data user session false loc headerOrigin
  else return loggedIn user session false loc headerOrigin

/-! ### Token requests -/

structure TokenRequest where
  grantType : String
  code : Option String
  redirectUri : Option String
  clientId : Option String
  clientSecret : Option String
  codeVerifier : Option String
  deviceCode : Option String
  username : Option String
  password : Option String
  refreshToken : Option String
  deriving DecidableEq, Inhabited

/-- The client's id and secret: from the `Authorization` header, or from the body. -/
def TokenRequest.tryGetClientIdSecret (data : AppState) (r : TokenRequest) (req : HttpRequest) :
    Except ErrorResponse (String × Option String) :=
  match req.authorization with
  | some header => do
      let b64 := ((Text.splitOnce header " ").getD ("", "")).2
      let decoded ← data.decodeAuthHeader b64
      match Text.splitOnce decoded ":" with
      | none => .error ⟨.badRequest, "Bad Authorization header"⟩
      | some (clientId, clientSecret) => .ok (clientId, some clientSecret)
  | none => .ok (r.clientId.getD "", r.clientSecret)

/-- A confidential client has to present its secret; `missing` is the message if not. -/
def checkSecret (data : AppState) (client : Client) (secret : Option String) (missing : String) :
    M ErrorResponse Unit :=
  if client.confidential then do
    let secret ← okOr (err .badRequest missing) secret
    answer (client.validateSecret data secret)
  else return ()

def originHeader (headerOrigin : Option String) : Headers :=
  headerOrigin.toList.map fun o => ("Access-Control-Allow-Origin", o)

/-! ### `authorization_code` -/

/-- The checks of the client that come before the code is looked up: the client, the
fingerprint of the proof and the headers. -/
def codeClient (data : AppState) (req : HttpRequest) (clientId : String)
    (clientSecret : Option String) : M ErrorResponse (Client × Option String × Headers) := do
  let client ← mapErr (fun _ => ⟨.notFound, "Client '" ++ clientId ++ "' not found"⟩)
    (Client.findMaybeEphemeral data clientId)
  let headerOrigin ← answer (client.validateOrigin data req)
  checkSecret data client clientSecret "'client_secret' is missing"
  answer (client.validateFlow "authorization_code")
  let (fingerprint, headers) ← dpopFingerprint data req headerOrigin
  return (client, fingerprint, headers ++ originHeader headerOrigin)

/-- `base64_url_encode` -/
def base64UrlEncode (data : AppState) (b : Bytes) : String :=
  String.ofList ((data.base64Encode b).toList.filterMap fun
    | '=' => none
    | '+' => some '-'
    | '/' => some '_'
    | x => some x)

/-- The challenge that a verifier answers: itself for `plain`, else its hash. -/
def challengeOf (data : AppState) (method verifier : String) : String :=
  if method = "plain" then verifier
  else base64UrlEncode data (data.sha256 (Text.asBytes verifier))

/-- The check of the code verifier. -/
def checkVerifier (data : AppState) (code : AuthCode) (verifier : Option String) :
    M ErrorResponse Unit :=
  match code.challenge with
  | none => return ()
  | some challenge => do
      let verifier ← okOr (err .badRequest "'code_verifier' is missing") verifier
      let method ← unwrap "called `Option::unwrap()` on a `None` value" code.challengeMethod
      throwIf (challenge ≠ challengeOf data method verifier)
        (err .unauthorized "'code_verifier' does not match the challenge")

/-- The checks of a code that was found. -/
def checkCode (data : AppState) (code : AuthCode) (clientId : String)
    (verifier : Option String) : M ErrorResponse Unit := do
  throwIf (code.clientId ≠ clientId)
    (err .unauthorized ("Wrong 'code' for client_id '" ++ clientId ++ "'"))
  let now ← unixTimestamp
  throwIf (code.exp < now) (err .sessionExpired "The Authorization Code has expired")
  checkVerifier data code verifier

/-- The session in which the code was created becomes a session of its user. -/
def updateCodeSession (code : AuthCode) (user : User) : M ErrorResponse Unit :=
  match code.sessionId with
  | none => return ()
  | some sid => do
      let session ← Session.find sid
      let now ← unixTimestamp
      let session := { session with lastSeen := now, state := .auth }
      match ← attempt (session.validateUserExpiry user) with
      | .error e =>
          code.delete
          fail (.err e)
      | .ok session =>
          let session ← session.validateUserExpiry user
          Session.save { session with
            userId := some user.id, roles := some user.roles, groups := user.groups }

/-- `grant_type_code` -/
def grantTypeCode (data : AppState) (req : HttpRequest) (reqData : TokenRequest) :
    M ErrorResponse (TokenSet × Headers) := do
  let idx ← okOr (err .badRequest "'code' is missing") reqData.code
  let (clientId, clientSecret) ← answer (reqData.tryGetClientIdSecret data req)
  let (client, fingerprint, headers) ← codeClient data req clientId clientSecret
  let found ← AuthCode.find idx
  let code ← okOr (err .unauthorized "'auth_code' could not be found inside the cache") found
  checkCode data code clientId reqData.codeVerifier
  let user ← User.find code.userId
  let tokenSet ← TokenSet.fromUser data user client fingerprint code.nonce
    (some (Text.join " " code.scopes)) .yes .no
  updateCodeSession code user
  code.delete
  client.updateUsed
  return (tokenSet, headers)

/-! ### `client_credentials` -/

def grantTypeCredentials (data : AppState) (req : HttpRequest) (reqData : TokenRequest) :
    M ErrorResponse (TokenSet × Headers) := do
  throwIf (reqData.clientSecret.isNone = true) (err .badRequest "'client_secret' is missing")
  let (clientId, clientSecret) ← answer (reqData.tryGetClientIdSecret data req)
  let client ← Client.find clientId
  throwIf (client.confidential = false)
    (err .badRequest "'client_credentials' flow is allowed for confidential clients only")
  throwIf (client.enabled = false) (err .badRequest "client is disabled")
  let secret ← okOr (err .badRequest "'client_secret' is missing") clientSecret
  answer (client.validateSecret data secret)
  answer (client.validateFlow "client_credentials")
  let headerOrigin ← answer (client.validateOrigin data req)
  let (fingerprint, headers) ← dpopFingerprint data req headerOrigin
  client.updateUsed
  let ts ← TokenSet.forClientCredentials data client fingerprint
  return (ts, headers)

/-! ### `device_code` -/

inductive OAuth2ErrorTypeResponse where
  | invalidRequest
  | invalidClient
  | unauthorizedClient
  | invalidScope
  | authorizationPending
  | slowDown
  | accessDenied
  | expiredToken
  deriving DecidableEq

/-- The answer of the device grant: a token set, or an error with its HTTP status. -/
inductive DeviceAnswer where
  | ok (ts : TokenSet)
  | error (status : ℕ) (error : OAuth2ErrorTypeResponse) (description : String)
  deriving DecidableEq

/-- What the source makes of an internal error. -/
def DeviceAnswer.internal (e : ErrorResponse) : DeviceAnswer :=
  .error 500 .invalidRequest ("error: " ++ e.error.debugStr ++ " message: " ++ e.message)

/-- A request that polls too fast: its error, and the code with one warning more. -/
def checkPoll (data : AppState) (code : DeviceAuthCode) (now : Int) :
    M ErrorResponse (DeviceAuthCode × OAuth2ErrorTypeResponse × String) :=
  if now - data.deviceGrantPollInterval * 1000 + 500 < code.lastPoll then do
    let code := { code with warnings := (code.warnings + 1) % 2 ^ 8 }
    if code.warnings ≥ 3 then
      -- the code is deleted, but the request goes on
      ignoreErr (code.delete data)
      return (code, .accessDenied, "poll interval has not been respected")
    else return (code, .slowDown, "must respect the poll interval")
  else return (code, .authorizationPending, "")

/-- The device of a code that a user has verified, and its tokens. -/
def issueDevice (data : AppState) (peerIp : Option String) (code : DeviceAuthCode) (user : User)
    (client : Client) (now : Int) : M ErrorResponse DeviceAnswer := do
  let accessExp := now / 1000 + client.accessTokenLifetime
  ignoreErr (code.delete data)
  let id ← newStoreId
  let device : DeviceEntity :=
    { id, clientId := code.clientId, userId := some user.id, created := now / 1000, accessExp,
      refreshExp := if client.refreshToken then some (accessExp + 48 * 3600) else none,
      peerIp := peerIp.getD "", name := id }
  match ← attempt device.insert with
  | .error e => return .internal e
  | .ok _ =>
      match ← attempt (TokenSet.fromUser data user client none none code.scopes .no
          (.yes device.id)) with
      | .error e => return .internal e
      | .ok ts => return .ok ts

/-- `grant_type_device_code`: neither the user nor the client is checked again. -/
def grantTypeDeviceCode (data : AppState) (peerIp : Option String) (payload : TokenRequest) :
    M ErrorResponse DeviceAnswer :=
  match payload.deviceCode with
  | none => return .error 400 .invalidRequest "`device_code` is missing"
  | some deviceCode => do
      match ← attempt (DeviceAuthCode.findByDeviceCode data deviceCode) with
      | .error _ | .ok none =>
          return .error 400 .expiredToken "invalid `device_code` or request has expired"
      | .ok (some code) =>
          if some code.clientId ≠ payload.clientId then
            return .error 400 .invalidRequest "Invalid `client_id`"
          else if code.deviceCode ≠ deviceCode then
            return .error 400 .unauthorizedClient "Invalid `device_code`"
          else if code.clientSecret ≠ payload.clientSecret then
            return .error 400 .unauthorizedClient "Invalid `client_secret`"
          else
            let ms ← now
            let (code, error, description) ← checkPoll data code ms
            match code.verifiedBy with
            | some verifiedBy =>
                match ← attempt (User.find verifiedBy) with
                | .error e => return .internal e
                | .ok user =>
                    match ← attempt (Client.find code.clientId) with
                    | .error e => return .internal e
                    | .ok client => issueDevice data peerIp code user client ms
            | none =>
                ignoreErr (DeviceAuthCode.save data { code with lastPoll := ms })
                return .error 400 error description

/-! ### `password` -/

/-- The client of the password grant, as `codeClient`, for a registered client. -/
def passwordClient (data : AppState) (req : HttpRequest) (clientId : String)
    (clientSecret : Option String) : M ErrorResponse (Client × Option String × Headers) := do
  let client ← Client.find clientId
  let headerOrigin ← answer (client.validateOrigin data req)
  checkSecret data client clientSecret "Missing 'client_secret'"
  answer (client.validateFlow "password")
  let (fingerprint, headers) ← dpopFingerprint data req headerOrigin
  return (client, fingerprint, headers ++ originHeader headerOrigin)

/-- The user, with its password hashed again if the parameters have changed. -/
def renewHash (user : User) (uptodate : Bool) (password : String) : M ErrorResponse User :=
  if uptodate then return user
  else do
    let newHash ← call (.hashPassword password) answer
    return { user with password := some newHash }

/-- A password that is right: the login is noted, and an old hash renewed. -/
def passwordLogin (data : AppState) (user : User) (password : String) : M ErrorResponse User := do
  let now ← unixTimestamp
  let user := { user with
    lastLogin := some now, lastFailedLogin := none, failedLoginAttempts := none }
  let hashUptodate ← user.isArgon2Uptodate data
  let user ← renewHash user hashUptodate password
  user.save data none
  return user

/-- A password that is wrong. -/
def passwordFailed (data : AppState) (user : User) : M ErrorResponse Unit := do
  let now ← unixTimestamp
  User.save data { user with
    lastFailedLogin := some now
    failedLoginAttempts := some (user.failedLoginAttempts.getD 0 + 1) } none

/-- The tokens for a password that is right. -/
def passwordTokens (data : AppState) (user : User) (password : String) (client : Client)
    (fingerprint : Option String) (headers : Headers) : M ErrorResponse (TokenSet × Headers) := do
  let user ← passwordLogin data user password
  client.updateUsed
  let ts ← TokenSet.fromUser data user client fingerprint none none .no .no
  return (ts, headers)

def grantTypePassword (data : AppState) (req : HttpRequest) (reqData : TokenRequest) :
    M ErrorResponse (TokenSet × Headers) := do
  let email ← okOr (err .badRequest "Missing 'username'") reqData.username
  let password ← okOr (err .badRequest "Missing 'password") reqData.password
  let (clientId, clientSecret) ← answer (reqData.tryGetClientIdSecret data req)
  let (client, fingerprint, headers) ← passwordClient data req clientId clientSecret
  let user ← mapErr (fun _ => ⟨.unauthorized, "Invalid user credentials"⟩)
    (User.findByEmail data email)
  user.checkEnabled
  user.checkExpired
  match ← attempt (user.validatePassword data password) with
  | .ok _ => passwordTokens data user password client fingerprint headers
  | .error e =>
      passwordFailed data user
      fail (.err e)

/-! ### `refresh_token` -/

/-- The proof of possession that a bound refresh token needs: its fingerprint and
nonce. -/
def refreshProof (data : AppState) (req : HttpRequest) (headerOrigin : Option String)
    (cnf : Option JktClaim) : M ErrorResponse (Option String × Option String) :=
  match cnf with
  | none => return (none, none)
  | some cnf => do
      match ← DPoPProof.optValidatedFrom data req headerOrigin with
      | none => fail (err .forbidden "The refresh token is bound to a missing DPoP proof")
      | some proof =>
          let fingerprint ← answer proof.fingerprint
          throwIf (fingerprint ≠ cnf.jkt)
            (err .forbidden "The refresh token is bound to a missing DPoP proof")
          return (some fingerprint, proof.claims.nonce)

/-- The row of a refresh token; one that has expired already ends all of its user. -/
def findRefreshToken (refreshToken : String) : M ErrorResponse RefreshToken := do
  let id ← validationString refreshToken
  let rt ← RefreshToken.find id
  let now ← unixTimestamp
  if rt.exp < now then
    RefreshToken.invalidateAllForUser rt.userId
    fail (err .badRequest ("Refresh Token has expired already. All other refresh tokens" ++
      "for this user have been invalidated now because of misuse."))
  else return rt

/-- The user of a refresh token, after its login has been noted. -/
def refreshUser (data : AppState) (uid : String) : M ErrorResponse User := do
  let user ← User.find uid
  user.checkEnabled
  user.checkExpired
  let now ← unixTimestamp
  let user := { user with lastLogin := some now }
  user.save data none
  return user

/-- A used refresh token lives on for the grace time only. -/
def expireRefreshToken (data : AppState) (rt : RefreshToken) : M ErrorResponse Unit := do
  let now ← unixTimestamp
  let expAtSecs := now + data.refreshGraceTime
  if rt.exp > expAtSecs + 1 then RefreshToken.save { rt with exp := expAtSecs } else return ()

/-- The client of a refresh token, if the caller has not found it already. -/
def refreshClient (azp : String) : Option Client → M ErrorResponse Client
  | some c => return c
  | none => Client.find azp

/-- `validate_refresh_token` -/
def validateRefreshToken (data : AppState) (clientOpt : Option Client) (refreshToken : String)
    (req : HttpRequest) : M ErrorResponse (TokenSet × Option String) := do
  let kid ← answer (data.kidFromToken refreshToken)
  let kp ← JwkKeyPair.find data kid
  let now ← unixTimestamp
  let claims ← answer (data.validateRefreshJwt kp refreshToken now)
  throwIf (claims.custom.typ ≠ .refresh)
    (err .badRequest "Provided Token is not a valid refresh token")
  let client ← refreshClient claims.custom.azp clientOpt
  throwIf (client.id ≠ claims.custom.azp) (err .badRequest "Invalid 'azp'")
  let headerOrigin ← answer (client.validateOrigin data req)
  let (fingerprint, nonce) ← refreshProof data req headerOrigin claims.custom.cnf
  let rt ← findRefreshToken refreshToken
  let user ← refreshUser data claims.custom.uid
  expireRefreshToken data rt
  let ts ← TokenSet.fromUser data user client fingerprint none rt.scope .no .no
  return (ts, nonce)

def grantTypeRefresh (data : AppState) (req : HttpRequest) (reqData : TokenRequest) :
    M ErrorResponse (TokenSet × Headers) := do
  let refreshToken ← okOr (err .badRequest "'refresh_token' is missing") reqData.refreshToken
  let (clientId, clientSecret) ← answer (reqData.tryGetClientIdSecret data req)
  let client ← Client.findMaybeEphemeral data clientId
  let headerOrigin ← answer (client.validateOrigin data req)
  checkSecret data client clientSecret "'client_secret' is missing"
  answer (client.validateFlow "refresh_token")
  let (ts, nonce) ← validateRefreshToken data (some client) refreshToken req
  return (ts, originHeader headerOrigin ++ nonce.toList.map fun n => ("DPoP-Nonce", n))

/-! ### The token endpoint -/

/-- `GRANT_TYPE_DEVICE_CODE` -/
def grantTypeDeviceCodeName : String := "urn:ietf:params:oauth:grant-type:device_code"

/-- `get_token_set` -/
def getTokenSet (data : AppState) (req : HttpRequest) (reqData : TokenRequest) :
    M ErrorResponse (TokenSet × Headers) :=
  if reqData.grantType = "authorization_code" then grantTypeCode data req reqData
  else if reqData.grantType = "client_credentials" then grantTypeCredentials data req reqData
  else if reqData.grantType = "password" then grantTypePassword data req reqData
  else if reqData.grantType = "refresh_token" then grantTypeRefresh data req reqData
  else fail (err .badRequest "Invalid 'grant_type'")

/-- `post_token`: what the endpoint answers with `200`. -/
def postToken (data : AppState) (req : HttpRequest) (reqData : TokenRequest) :
    M ErrorResponse DeviceAnswer :=
  if reqData.grantType = grantTypeDeviceCodeName then
    grantTypeDeviceCode data req.realIp reqData
  else do
    let (ts, _) ← getTokenSet data req reqData
    return .ok ts

/-! ### What the grants write -/

section Touches

theorem WebauthnCookie.parseValidate_touches (data : AppState) (cookie : Option String) :
    Touches [] [] (WebauthnCookie.parseValidate data cookie) := by
  unfold WebauthnCookie.parseValidate
  split
  · exact touches_fail _
  · refine touches_bind (touches_answer _) fun _ => touches_bind touches_now fun _ => ?_
    exact touches_bind (touches_throwIf _ _) fun _ => touches_ret _

theorem checkSecret_touches (data : AppState) (client : Client) (secret : Option String)
    (missing : String) : Touches [] [] (checkSecret data client secret missing) := by
  unfold checkSecret
  split
  · exact touches_bind (touches_okOr _ _) fun _ => touches_answer _
  · exact touches_ret _

theorem codeClient_touches (data : AppState) (req : HttpRequest) (clientId : String)
    (secret : Option String) :
    Touches [] [(.c12hr, .client), (.ephemeralClients, .client), (.dpopNonces, .dpopNonce)]
      (codeClient data req clientId secret) := by
  refine touches_bind (touches_mapErr ?_) fun client => touches_bind (touches_answer _) fun o => ?_
  · exact (Client.findMaybeEphemeral_touches data clientId).mono (by simp) (by simp)
  refine touches_bind ((checkSecret_touches _ _ _ _).mono (by simp) (by simp)) fun _ =>
    touches_bind (touches_answer _) fun _ => ?_
  refine touches_bind ((dpopFingerprint_touches _ _ _).mono (by simp) (by simp)) fun _ => ?_
  exact touches_ret _

theorem checkVerifier_touches (data : AppState) (code : AuthCode) (v : Option String) :
    Touches [] [] (checkVerifier data code v) := by
  unfold checkVerifier
  split
  · exact touches_ret _
  · exact touches_bind (touches_okOr _ _) fun _ => touches_bind (touches_unwrap _ _) fun _ =>
      touches_throwIf _ _

theorem checkCode_touches (data : AppState) (code : AuthCode) (clientId : String)
    (v : Option String) : Touches [] [] (checkCode data code clientId v) :=
  touches_bind (touches_throwIf _ _) fun _ => touches_bind touches_unixTimestamp fun _ =>
    touches_bind (touches_throwIf _ _) fun _ => checkVerifier_touches _ _ _

theorem updateCodeSession_touches (code : AuthCode) (user : User) :
    Touches [.sessions] [(.sessions, .session)] (updateCodeSession code user) := by
  unfold updateCodeSession
  split
  · exact touches_ret _
  · next sid _ =>
      refine touches_bind ((Session.find_touches sid).mono (by simp) (by simp)) fun session => ?_
      refine touches_bind touches_unixTimestamp fun now => ?_
      refine touches_bind (touches_attempt
        ((Session.validateUserExpiry_touches _ _).mono (by simp) (by simp))) fun x => ?_
      rcases x with e | s
      · exact touches_bind (touches_cacheDel _ _) fun _ => touches_fail _
      · exact touches_bind ((Session.validateUserExpiry_touches _ _).mono (by simp) (by simp))
          fun _ => Session.save_touches _

/-- The tables that the grants change. -/
def grantTables : List Table :=
  [.users, .sessions, .refreshTokens, .refreshTokensDevices, .magicLinks, .devices, .clientsDyn]

/-- The entries that the grants cache, apart from the clients they find. -/
def grantSlots : List (CacheName × Slot) :=
  [(.c12hr, .jwkKeyPair), (.c12hr, .scopes), (.users, .userValues), (.users, .userAttrValues),
    (.users, .user), (.sessions, .session), (.dpopNonces, .dpopNonce),
    (.deviceCodes, .deviceAuthCode)]

theorem TokenSet.fromUser_grant (data : AppState) (user : User) (client : Client)
    (fp nonce scopes : Option String) (acf : AuthCodeFlow) (dcf : DeviceCodeFlow) :
    Touches grantTables grantSlots (TokenSet.fromUser data user client fp nonce scopes acf dcf) :=
  (TokenSet.fromUser_touches _ _ _ _ _ _ _ _).mono (by simp [TokenSet.tables, grantTables])
    (by simp [TokenSet.slots, grantSlots])

theorem Client.updateUsed_grant (c : Client) : Touches grantTables grantSlots c.updateUsed :=
  c.updateUsed_touches.mono (by simp [grantTables]) (by simp)

theorem User.save_grant (data : AppState) (u : User) (oldEmail : Option String) :
    Touches grantTables grantSlots (u.save data oldEmail) :=
  (u.save_touches data oldEmail).mono (by simp [grantTables]) (by simp [grantSlots])

theorem User.find_grant (id : String) : Touches grantTables grantSlots (User.find id) :=
  (User.find_touches id).mono (by simp) (by simp [grantSlots])

theorem dpopFingerprint_grant (data : AppState) (req : HttpRequest) (o : Option String) :
    Touches grantTables grantSlots (dpopFingerprint data req o) :=
  (dpopFingerprint_touches data req o).mono (by simp) (by simp [grantSlots])

theorem User.isArgon2Uptodate_touches (data : AppState) (u : User) :
    Touches [] [] (u.isArgon2Uptodate data) := by
  unfold User.isArgon2Uptodate
  split <;> trivial

theorem renewHash_touches (user : User) (uptodate : Bool) (password : String) :
    Touches [] [] (renewHash user uptodate password) := by
  unfold renewHash
  split
  · exact touches_ret _
  · exact touches_bind ⟨trivial, fun x => touches_answer x⟩ fun _ => touches_ret _

theorem passwordLogin_touches (data : AppState) (user : User) (password : String) :
    Touches grantTables grantSlots (passwordLogin data user password) := by
  refine touches_bind touches_unixTimestamp fun now => ?_
  refine touches_bind ((User.isArgon2Uptodate_touches _ _).mono (by simp) (by simp)) fun upto => ?_
  refine touches_bind ((renewHash_touches _ _ _).mono (by simp) (by simp)) fun u => ?_
  exact touches_bind (u.save_grant data none) fun _ => touches_ret _

theorem passwordFailed_touches (data : AppState) (user : User) :
    Touches grantTables grantSlots (passwordFailed data user) :=
  touches_bind touches_unixTimestamp fun _ => User.save_grant data _ none

theorem passwordTokens_touches (data : AppState) (user : User) (password : String)
    (client : Client) (fp : Option String) (headers : Headers) :
    Touches grantTables grantSlots (passwordTokens data user password client fp headers) :=
  touches_bind (passwordLogin_touches data user password) fun _ =>
    touches_bind client.updateUsed_grant fun _ =>
      touches_bind (TokenSet.fromUser_grant _ _ _ _ _ _ _ _) fun _ => touches_ret _

theorem refreshProof_touches (data : AppState) (req : HttpRequest) (o : Option String)
    (cnf : Option JktClaim) :
    Touches [] [(.dpopNonces, .dpopNonce)] (refreshProof data req o cnf) := by
  unfold refreshProof
  split
  · exact touches_ret _
  · refine touches_bind (DPoPProof.optValidatedFrom_touches data req o) fun x => ?_
    rcases x with - | proof
    · exact touches_fail _
    · exact touches_bind (touches_answer _) fun _ => touches_bind (touches_throwIf _ _) fun _ =>
        touches_ret _

theorem findRefreshToken_touches (token : String) :
    Touches grantTables grantSlots (findRefreshToken token) := by
  refine touches_bind (touches_unwrap _ _) fun id => ?_
  refine touches_bind (touches_mapErr (touches_fetchOne _ _)) fun rt => ?_
  refine touches_bind touches_unixTimestamp fun now => ?_
  split
  · exact touches_bind (touches_execute (by simp [DbWrite.table, grantTables])) fun _ =>
      touches_fail _
  · exact touches_ret _

theorem refreshUser_touches (data : AppState) (uid : String) :
    Touches [.users] [(.users, .user)] (refreshUser data uid) := by
  refine touches_bind ((User.find_touches uid).mono (by simp) (by simp)) fun u => ?_
  -- a user that is disabled ends the request before it is saved
  by_cases henabled : u.enabled = false
  · have hfail : u.checkEnabled = .fail (err .disabled "User is not enabled") := by
      rw [User.checkEnabled, throwIf, if_pos henabled]
    rw [hfail]
    exact touches_fail _
  · refine touches_bind (u.checkEnabled_touches.mono (by simp) (by simp)) fun _ => ?_
    refine touches_bind (u.checkExpired_touches.mono (by simp) (by simp)) fun _ => ?_
    refine touches_bind touches_unixTimestamp fun _ => touches_bind ?_ fun _ => touches_ret _
    exact User.save_touches_of_enabled data (Bool.eq_true_of_not_eq_false henabled)

theorem expireRefreshToken_touches (data : AppState) (rt : RefreshToken) :
    Touches grantTables grantSlots (expireRefreshToken data rt) := by
  refine touches_bind touches_unixTimestamp fun now => ?_
  simp only
  split
  · exact touches_execute (by simp [DbWrite.table, grantTables])
  · exact touches_ret _

/-- The refresh grant, for a client that is there already. -/
theorem validateRefreshToken_touches (data : AppState) (client : Client) (token : String)
    (req : HttpRequest) :
    Touches grantTables grantSlots (validateRefreshToken data (some client) token req) := by
  refine touches_bind (touches_answer _) fun kid => ?_
  refine touches_bind ((JwkKeyPair.find_touches data kid).mono (by simp) (by simp [grantSlots]))
    fun kp => ?_
  refine touches_bind touches_unixTimestamp fun now => touches_bind (touches_answer _) fun cl => ?_
  refine touches_bind (touches_throwIf _ _) fun _ => touches_bind (touches_ret _) fun _ => ?_
  refine touches_bind (touches_throwIf _ _) fun _ => touches_bind (touches_answer _) fun o => ?_
  refine touches_bind ((refreshProof_touches _ _ _ _).mono (by simp) (by simp [grantSlots]))
    fun _ => ?_
  refine touches_bind (findRefreshToken_touches token) fun rt => ?_
  refine touches_bind ((refreshUser_touches data _).mono (by simp [grantTables])
    (by simp [grantSlots])) fun user => ?_
  refine touches_bind (expireRefreshToken_touches data rt) fun _ => ?_
  exact touches_bind (TokenSet.fromUser_grant _ _ _ _ _ _ _ _) fun _ => touches_ret _

theorem checkPoll_touches (data : AppState) (code : DeviceAuthCode) (now : Int) :
    Touches [] [] (checkPoll data code now) := by
  unfold checkPoll
  split
  · simp only
    split
    · exact touches_bind (touches_ignoreErr (DeviceAuthCode.delete_touches _ _)) fun _ =>
        touches_ret _
    · exact touches_ret _
  · exact touches_ret _

theorem issueDevice_touches (data : AppState) (ip : Option String) (code : DeviceAuthCode)
    (user : User) (client : Client) (now : Int) :
    Touches grantTables grantSlots (issueDevice data ip code user client now) := by
  refine touches_bind (touches_ignoreErr ((code.delete_touches data).mono (by simp) (by simp)))
    fun _ => touches_bind (touches_getRand _) fun id => ?_
  refine touches_bind (touches_attempt (touches_execute (by simp [DbWrite.table, grantTables])))
    fun r => ?_
  rcases r with e | u
  · exact touches_ret _
  · refine touches_bind (touches_attempt (TokenSet.fromUser_grant _ _ _ _ _ _ _ _)) fun r => ?_
    rcases r with e | ts
    · exact touches_ret _
    · exact touches_ret _

end Touches

end Rauthy
