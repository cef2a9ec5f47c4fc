/-
Rauthy/Data.lean

The data model: error responses, the entities of the database and of the caches,
and the claims of the issued tokens.  Field names follow the source in camel case;
timestamps are seconds since the epoch unless said otherwise.
-/
import Mathlib.Algebra.Group.Int.Defs
import Mathlib.Algebra.Group.Nat.Defs
import Mathlib.Tactic.Common

namespace Rauthy

abbrev Bytes := List UInt8

/-! ### Errors -/

inductive ErrorResponseType where
  | badRequest
  | connection
  | csrfTokenError
  | database
  | databaseIo
  | disabled
  | dpop (headerOrigin : Option String)
  | encryption
  | useDpopNonce (headerOrigin : Option String) (value : String)
  | forbidden
  | internal
  | joseError
  | mfaRequired
  | noSession
  | notFound
  | passwordExpired
  | passwordRefresh
  | sessionExpired
  | sessionTimeout
  | tooManyRequests (notBefore : Int)
  | unauthorized
  | wwwAuthenticate (error : String)
  deriving DecidableEq, Inhabited

/-- The debug format of an optional text. -/
def debugOption : Option String → String
  | none => "None"
  | some s => "Some(\"" ++ s ++ "\")"

/-- The debug format, which is also how an error type is displayed. -/
def ErrorResponseType.debugStr : ErrorResponseType → String
  | badRequest => "BadRequest"
  | connection => "Connection"
  | csrfTokenError => "CSRFTokenError"
  | database => "Database"
  | databaseIo => "DatabaseIo"
  | disabled => "Disabled"
  | dpop origin => "DPoP(" ++ debugOption origin ++ ")"
  | encryption => "Encryption"
  | useDpopNonce origin value =>
      "UseDpopNonce((" ++ debugOption origin ++ ", \"" ++ value ++ "\"))"
  | forbidden => "Forbidden"
  | internal => "Internal"
  | joseError => "JoseError"
  | mfaRequired => "MfaRequired"
  | noSession => "NoSession"
  | notFound => "NotFound"
  | passwordExpired => "PasswordExpired"
  | passwordRefresh => "PasswordRefresh"
  | sessionExpired => "SessionExpired"
  | sessionTimeout => "SessionTimeout"
  | tooManyRequests notBefore => "TooManyRequests(" ++ toString notBefore ++ ")"
  | unauthorized => "Unauthorized"
  | wwwAuthenticate error => "WWWAuthenticate(\"" ++ error ++ "\")"

structure ErrorResponse where
  error : ErrorResponseType
  message : String
  deriving DecidableEq, Inhabited

/-- How a request can fail: with an error answer, or by a panic of its task. -/
inductive Fault (ε : Type) where
  | err (e : ε)
  | panic (msg : String)
  deriving DecidableEq, Inhabited

namespace Fault

/-- `map_err`: a panic is not caught. -/
def map {ε ε' : Type} (f : ε → ε') : Fault ε → Fault ε'
  | err e => err (f e)
  | panic msg => panic msg

end Fault

/-! ### Users -/

inductive Language where
  | en
  | de
  deriving DecidableEq, Inhabited

/-- `Language::as_str`, which also displays it -/
def Language.asStr : Language → String
  | en => "en"
  | de => "de"

inductive AccountType where
  | new
  | password
  | passkey
  | federated
  | federatedPassword
  | federatedPasskey
  deriving DecidableEq, Inhabited

structure User where
  id : String
  email : String
  givenName : String
  familyName : String
  password : Option String
  roles : String
  groups : Option String
  enabled : Bool
  emailVerified : Bool
  passwordExpires : Option Int
  createdAt : Int
  lastLogin : Option Int
  lastFailedLogin : Option Int
  failedLoginAttempts : Option Int
  language : Language
  webauthnUserId : Option String
  userExpires : Option Int
  authProviderId : Option String
  federationUid : Option String
  deriving DecidableEq, Inhabited

structure UserValues where
  id : String
  birthdate : Option String
  phone : Option String
  street : Option String
  zip : Option Int
  city : Option String
  country : Option String
  deriving DecidableEq, Inhabited

structure UserAttrValueEntity where
  userId : String
  key : String
  value : Bytes
  deriving DecidableEq, Inhabited

structure UserAttrConfigEntity where
  name : String
  desc : Option String
  deriving DecidableEq, Inhabited

structure PasswordPolicy where
  lengthMin : Int
  lengthMax : Int
  includeLowerCase : Option Int
  includeUpperCase : Option Int
  includeDigits : Option Int
  includeSpecial : Option Int
  validDays : Option Int
  notRecentlyUsed : Option Int
  deriving DecidableEq, Inhabited

structure RecentPasswordsEntity where
  userId : String
  passwords : String
  deriving DecidableEq, Inhabited

structure Role where
  id : String
  name : String
  deriving DecidableEq, Inhabited

structure Group where
  id : String
  name : String
  deriving DecidableEq, Inhabited

structure Scope where
  id : String
  name : String
  attrIncludeAccess : Option String
  attrIncludeId : Option String
  deriving DecidableEq, Inhabited

inductive MagicLinkUsage where
  | emailChange (email : String)
  | passwordReset (redirectUri : Option String)
  | newUser (redirectUri : Option String)
  deriving DecidableEq, Inhabited

structure MagicLink where
  id : String
  userId : String
  csrfToken : String
  cookie : Option String
  exp : Int
  used : Bool
  usage : String
  deriving DecidableEq, Inhabited

/-! ### Sessions -/

inductive SessionState where
  | opened
  | init
  | auth
  | loggedOut
  | unknown
  deriving DecidableEq, Inhabited

structure Session where
  id : String
  csrfToken : String
  userId : Option String
  roles : Option String
  groups : Option String
  isMfa : Bool
  state : SessionState
  exp : Int
  lastSeen : Int
  remoteIp : Option String
  deriving DecidableEq, Inhabited

/-! ### Clients -/

structure Client where
  id : String
  name : Option String
  enabled : Bool
  confidential : Bool
  secret : Option Bytes
  secretKid : Option String
  redirectUris : String
  postLogoutRedirectUris : Option String
  allowedOrigins : Option String
  flowsEnabled : String
  accessTokenAlg : String
  idTokenAlg : String
  refreshToken : Bool
  authCodeLifetime : Int
  accessTokenLifetime : Int
  scopes : String
  defaultScopes : String
  challenge : Option String
  forceMfa : Bool
  clientUri : Option String
  contacts : Option String
  deriving DecidableEq, Inhabited

structure ClientDyn where
  id : String
  created : Int
  lastUsed : Option Int
  registrationToken : Bytes
  tokenEndpointAuthMethod : String
  deriving DecidableEq, Inhabited

/-! ### Codes and tokens -/

structure AuthCode where
  id : String
  exp : Int
  clientId : String
  userId : String
  sessionId : Option String
  challenge : Option String
  challengeMethod : Option String
  nonce : Option String
  scopes : List String
  deriving DecidableEq, Inhabited

structure RefreshToken where
  id : String
  userId : String
  nbf : Int
  exp : Int
  scope : Option String
  isMfa : Bool
  deriving DecidableEq, Inhabited

structure RefreshTokenDevice where
  id : String
  deviceId : String
  userId : String
  nbf : Int
  exp : Int
  scope : Option String
  deriving DecidableEq, Inhabited

structure DeviceEntity where
  id : String
  clientId : String
  userId : Option String
  created : Int
  accessExp : Int
  refreshExp : Option Int
  peerIp : String
  name : String
  deriving DecidableEq, Inhabited

/-- `exp` and `lastPoll` are in milliseconds. -/
structure DeviceAuthCode where
  clientId : String
  deviceCode : String
  verifiedBy : Option String
  exp : Int
  lastPoll : Int
  scopes : Option String
  clientSecret : Option String
  warnings : ℕ
  deriving DecidableEq, Inhabited

inductive JwkKeyPairAlg where
  | rs256
  | rs384
  | rs512
  | edDSA
  deriving DecidableEq, Inhabited

/-- `as_str` of the algorithms -/
def JwkKeyPairAlg.asStr : JwkKeyPairAlg → String
  | rs256 => "RS256"
  | rs384 => "RS384"
  | rs512 => "RS512"
  | edDSA => "EdDSA"

structure Jwk where
  kid : String
  createdAt : Int
  signature : JwkKeyPairAlg
  encKeyId : String
  jwk : Bytes
  deriving DecidableEq, Inhabited

structure JwkKeyPair where
  kid : String
  typ : JwkKeyPairAlg
  bytes : Bytes
  deriving DecidableEq, Inhabited

inductive JwkKeyPairType where
  | rsa
  | okp
  deriving DecidableEq, Inhabited

structure JWKSPublicKey where
  kty : JwkKeyPairType
  alg : Option JwkKeyPairAlg
  crv : Option String
  kid : Option String
  n : Option String
  e : Option String
  x : Option String
  deriving DecidableEq, Inhabited

/-- `exp` is in milliseconds. -/
structure DPoPNonce where
  exp : Int
  value : String
  deriving DecidableEq, Inhabited

inductive JwtTokenType where
  | bearer
  | dpop
  | id
  | refresh
  deriving DecidableEq, Inhabited

structure JktClaim where
  jkt : String
  deriving DecidableEq, Inhabited

structure AddressClaim where
  formatted : String
  streetAddress : Option String
  locality : Option String
  postalCode : Option Int
  country : Option String
  deriving DecidableEq, Inhabited

structure JwtAccessClaims where
  typ : JwtTokenType
  azp : String
  scope : String
  allowedOrigins : Option (List String)
  did : Option String
  email : Option String
  preferredUsername : Option String
  roles : Option (List String)
  groups : Option (List String)
  cnf : Option JktClaim
  custom : Option (List (String × String))
  deriving DecidableEq, Inhabited

structure JwtIdClaims where
  azp : String
  typ : JwtTokenType
  amr : List String
  authTime : Int
  atHash : String
  preferredUsername : String
  email : Option String
  emailVerified : Option Bool
  givenName : Option String
  familyName : Option String
  address : Option AddressClaim
  birthdate : Option String
  locale : Option String
  phone : Option String
  roles : List String
  groups : Option (List String)
  cnf : Option JktClaim
  custom : Option (List (String × String))
  webid : Option String
  deriving DecidableEq, Inhabited

structure JwtRefreshClaims where
  azp : String
  typ : JwtTokenType
  uid : String
  cnf : Option JktClaim
  deriving DecidableEq, Inhabited

/-- What the access and the id tokens have in common. -/
structure JwtCommonClaims where
  typ : JwtTokenType
  azp : String
  scope : Option String
  did : Option String
  cnf : Option JktClaim
  deriving DecidableEq, Inhabited

/-- The registered claims of a token around its custom ones. -/
structure JWTClaims (α : Type) where
  issuedAt : Int
  expiresAt : Int
  invalidBefore : Int
  issuer : String
  subject : Option String
  audiences : List String
  nonce : Option String
  custom : α
  deriving DecidableEq, Inhabited

/-- The content of a token, by kind.  A refresh token is found again by the end of its
signature, so the noise that this signature draws is part of it. -/
inductive TokenClaims where
  | access (claims : JWTClaims JwtAccessClaims)
  | id (claims : JWTClaims JwtIdClaims)
  | refresh (noise : String) (claims : JWTClaims JwtRefreshClaims)
  deriving DecidableEq

structure TokenSet where
  accessToken : String
  tokenType : JwtTokenType
  idToken : Option String
  expiresIn : Int
  refreshToken : Option String
  deriving DecidableEq, Inhabited

/-! ### Passkeys and Webauthn ceremonies -/

abbrev CredentialID := Bytes

/-- A registered credential.  Its signature counter and attested data are only
changed by the Webauthn library. -/
structure Passkey where
  credId : CredentialID
  counter : ℕ
  deriving DecidableEq, Inhabited

structure PasskeyEntity where
  userId : String
  name : String
  passkeyUserId : String
  passkey : Passkey
  credentialId : CredentialID
  registered : Int
  lastUsed : Int
  userVerified : Option Bool
  deriving DecidableEq, Inhabited

/-- The state the library keeps between the start and the end of a ceremony. -/
structure PasskeyAuthentication where
  challenge : String
  credentials : List CredentialID
  deriving DecidableEq, Inhabited

/-- What `finish_passkey_authentication` found out. -/
structure AuthenticationResult where
  credId : CredentialID
  userVerified : Bool
  counter : ℕ
  deriving DecidableEq, Inhabited

structure PasskeyRegistration where
  challenge : String
  userUniqueId : String
  excludeCredentials : List CredentialID
  deriving DecidableEq, Inhabited

structure WebauthnReg where
  userId : String
  passkeyUserId : String
  regState : PasskeyRegistration
  deriving DecidableEq, Inhabited

structure WebauthnLoginReq where
  code : String
  userId : String
  headerLoc : String
  headerOrigin : Option String
  deriving DecidableEq, Inhabited

structure WebauthnServiceReq where
  code : String
  userId : String
  deriving DecidableEq, Inhabited

inductive WebauthnAdditionalData where
  | login (req : WebauthnLoginReq)
  | service (req : WebauthnServiceReq)
  | test
  deriving DecidableEq, Inhabited

structure WebauthnData where
  code : String
  authStateJson : String
  data : WebauthnAdditionalData
  deriving DecidableEq, Inhabited

/-- `exp` is in milliseconds. -/
structure WebauthnCookie where
  email : String
  exp : Int
  deriving DecidableEq, Inhabited

/-! ### Login with an upstream provider -/

inductive AuthProviderType where
  | custom
  | github
  | google
  | oidc
  deriving DecidableEq, Inhabited

structure AuthProvider where
  id : String
  name : String
  enabled : Bool
  typ : AuthProviderType
  issuer : String
  authorizationEndpoint : String
  tokenEndpoint : String
  userinfoEndpoint : String
  clientId : String
  secret : Option Bytes
  scope : String
  adminClaimPath : Option String
  adminClaimValue : Option String
  mfaClaimPath : Option String
  mfaClaimValue : Option String
  allowInsecureRequests : Bool
  usePkce : Bool
  rootPem : Option String
  deriving DecidableEq, Inhabited

structure AuthProviderCallback where
  callbackId : String
  xsrfToken : String
  typ : AuthProviderType
  reqClientId : String
  reqScopes : Option (List String)
  reqRedirectUri : String
  reqState : Option String
  reqNonce : Option String
  reqCodeChallenge : Option String
  reqCodeChallengeMethod : Option String
  providerId : String
  pkceChallenge : String
  deriving DecidableEq, Inhabited

/-! ### API keys -/

inductive AccessGroup where
  | blacklist
  | clients
  | events
  | generic
  | groups
  | roles
  | secrets
  | sessions
  | scopes
  | userAttributes
  | users
  deriving DecidableEq, Inhabited

inductive AccessRights where
  | read
  | create
  | update
  | delete
  deriving DecidableEq, Inhabited

structure ApiKeyAccess where
  group : AccessGroup
  accessRights : List AccessRights
  deriving DecidableEq, Inhabited

structure ApiKey where
  name : String
  /-- SHA256 hashed secret key -/
  secret : Bytes
  created : Int
  expires : Option Int
  access : List ApiKeyAccess
  deriving DecidableEq, Inhabited

structure ApiKeyEntity where
  name : String
  secret : Bytes
  created : Int
  expires : Option Int
  encKeyId : String
  access : Bytes
  deriving DecidableEq, Inhabited

end Rauthy
