/-
Rauthy/AppState.lean

The application state that every request gets: the configuration, and the pure
functions of the libraries the source calls (cryptography, URL and Unicode tables,
token encoding).  They are parameters of the whole development; what a result
relies on is stated where it is used.
-/
import Rauthy.Data

namespace Rauthy

inductive ListenScheme where
  | http
  | https
  | httpHttps
  deriving DecidableEq, Inhabited

/-- What the source reads from an HTTP request. -/
structure HttpRequest where
  /-- the method is `GET` -/
  isGet : Bool
  path : String
  /-- what `real_ip_from_svc_req` finds -/
  realIp : Option String
  /-- the `rauthy-session` cookie -/
  sessionCookie : Option String
  /-- the `Origin` header -/
  origin : Option String
  /-- the `Authorization` header -/
  authorization : Option String
  /-- the `DPoP` header -/
  dpop : Option String
  /-- the `csrf-token` header -/
  csrfToken : Option String
  /-- the `pwd-csrf-token` header -/
  pwdCsrfToken : Option String
  /-- the `rauthy-mfa` cookie -/
  mfaCookie : Option String
  /-- the `rauthy-pwd-reset` cookie -/
  pwdResetCookie : Option String
  /-- the `upstream_auth_callback` cookie -/
  upstreamCallbackCookie : Option String
  /-- the `rauthy-provider-link` cookie -/
  providerLinkCookie : Option String
  deriving DecidableEq, Inhabited

structure DPoPClaims where
  jti : String
  htm : String
  htu : String
  iat : Int
  nonce : Option String
  deriving DecidableEq, Inhabited

/-- A decoded DPoP proof with the fingerprint of its key. -/
structure DPoPProof where
  typ : String
  claims : DPoPClaims
  fingerprint : Except ErrorResponse String

/-- A `serde_json::Value`: whether it is a string, and its JSON text. -/
structure JsonValue where
  isString : Bool
  text : String
  deriving DecidableEq, Inhabited

/-- The hash functions for access tokens. -/
inductive AtHashAlg where
  | sha256
  | sha384
  | sha512
  deriving DecidableEq, Inhabited

/-- The length of a hash in bytes -/
def AtHashAlg.outputLen : AtHashAlg → ℕ
  | sha256 => 32
  | sha384 => 48
  | sha512 => 64

structure AppState where
  -- `AppState`
  publicUrl : String
  issuer : String
  listenScheme : ListenScheme
  refreshGraceTime : Int
  sessionLifetime : Int
  sessionTimeout : Int
  mlLtPwdFirst : Int
  mlLtPwdReset : Int
  deviceGrantUserCodeLength : ℕ
  -- configuration read once at startup
  adminForceMfa : Bool
  deviceGrantCodeLifetime : Int
  deviceGrantPollInterval : Int
  deviceGrantRateLimit : Option ℕ
  deviceGrantRefreshTokenLifetime : Int
  dpopForceNonce : Bool
  dpopNonceExp : Int
  dpopTokenEndpoint : String
  dynClientDefaultTokenLifetime : Int
  dynClientSecretAutoRotate : Bool
  enableEphemeralClients : Bool
  enableSolidAud : Bool
  enableWebId : Bool
  encKeyActive : String
  passwordResetCookieBinding : Bool
  proxyMode : Bool
  pubUrlWithScheme : String
  refreshTokenLifetime : Int
  sessionRenewMfa : Bool
  sessionValidateIp : Bool
  userinfoStrict : Bool
  webauthnForceUv : Bool
  webauthnNoPasswordExpiry : Bool
  webauthnReqExp : Int
  -- libraries
  /-- `str::to_lowercase` -/
  toLowercase : String → String
  /-- `char::is_lowercase`, `char::is_uppercase`, `char::is_alphanumeric` -/
  isLowercase : Char → Bool
  isUppercase : Char → Bool
  isAlphanumeric : Char → Bool
  /-- `Url::from_str(s).is_ok()` -/
  isUrl : String → Bool
  /-- `String::from_utf8_lossy` -/
  fromUtf8Lossy : Bytes → String
  /-- the formatting and the parsing of a `DateTime<Utc>`, in milliseconds -/
  formatDateTime : Int → String
  parseDateTime : String → Option Int
  /-- base64 and UTF-8 decoding of an `Authorization` header -/
  decodeAuthHeader : String → Except ErrorResponse String
  /-- `EncValue::encrypt` -/
  encrypt : Bytes → Except ErrorResponse Bytes
  /-- `EncValue::encrypt_with_key_id` -/
  encryptWithKeyId : String → Bytes → Except ErrorResponse Bytes
  /-- `EncKeys::get_static_key`: the error if there is no such key -/
  getStaticKey : String → Except ErrorResponse Unit
  /-- `EncValue::try_from(v)?.decrypt()` -/
  decrypt : Bytes → Except ErrorResponse Bytes
  /-- `digest::digest(&digest::SHA256, v)` -/
  sha256 : Bytes → Bytes
  /-- `B64_STD.encode` -/
  base64Encode : Bytes → String
  /-- `ring::digest::digest` -/
  digest : (alg : AtHashAlg) → Bytes → { hash : Bytes // hash.length = alg.outputLen }
  /-- `ComparePasswords::is_match(plain, hash)` -/
  comparePasswords : String → String → Except ErrorResponse Bool
  /-- the hash was computed with the configured Argon2 parameters -/
  argon2Uptodate : String → Bool
  /-- decoding, decryption and deserialization of an MFA cookie -/
  decodeMfaCookie : String → Except ErrorResponse WebauthnCookie
  /-- decoding and decryption of the upstream callback cookie -/
  decodeCallbackCookie : String → Except ErrorResponse String
  /-- decoding and decryption of the provider link cookie: the provider's id and the
  user's id and e-mail -/
  decodeLinkCookie : String → Option (String × String × String)
  /-- the DPoP header is in the format `Token68` -/
  isToken68 : String → Bool
  /-- `DPoPProof::try_from_str` -/
  decodeDPoP : Option String → String → Except ErrorResponse DPoPProof
  /-- the key of the proof is valid and has signed the header value -/
  verifyDPoP : DPoPProof → String → Except String Unit
  /-- `Pow::validate`: the challenge of a proof of work -/
  validatePow : String → Except ErrorResponse String
  /-- the modulus and the exponent of an RSA key pair in DER format -/
  rsaComponents : JwkKeyPairAlg → Bytes → Option (Bytes × Bytes)
  /-- the public key of an Ed25519 key pair in DER format -/
  ed25519PublicKey : Bytes → Option Bytes
  /-- `sign_jwt!` -/
  signJwt : JwkKeyPair → TokenClaims → Except ErrorResponse String
  /-- `JwkKeyPair::kid_from_token` -/
  kidFromToken : String → Except ErrorResponse String
  /-- `validate_jwt!` for refresh tokens at a time in seconds -/
  validateRefreshJwt : JwkKeyPair → String → Int → Except ErrorResponse (JWTClaims JwtRefreshClaims)
  /-- `validate_jwt!` for the claims that the tokens have in common -/
  validateJwt : JwkKeyPair → String → Int → Except ErrorResponse (JWTClaims JwtCommonClaims)
  /-- the JSON text of an attribute value -/
  jsonFromSlice : Bytes → Option String
  /-- `Value::from(s).to_string()` -/
  jsonText : String → String
  /-- the values at a JSON path; `none` if the path is malformed -/
  jsonPath : String → Bytes → Option (List JsonValue)
  /-- `serde_json::to_string` of the providers on the login page, by id and name -/
  providersJson : List (String × String) → String
  /-- `serde_json::to_string` of the `WellKnown` for an issuer and the names of the scopes -/
  wellKnownJson : String → List String → String
  /-- `bincode::serialize` and `bincode::deserialize` of the access rights of an API key -/
  serializeAccess : List ApiKeyAccess → Bytes
  deserializeAccess : Bytes → Except ErrorResponse (List ApiKeyAccess)
  /-- `serde_json::to_string` and `serde_json::from_str` of a ceremony's state -/
  authStateToJson : PasskeyAuthentication → String
  authStateFromJson : String → Option PasskeyAuthentication
  /-- `Passkey::update_credential` -/
  updateCredential : Passkey → AuthenticationResult → Option (Bool × Passkey)

/-! ### A configuration for runs on fixed inputs -/

/-- A text for the state of a ceremony: `[` opens a credential, each byte is a
character above 255, `;` comes before the challenge. -/
def authStateText (st : PasskeyAuthentication) : List Char :=
  st.credentials.flatMap (fun c => '[' :: c.map fun b => Char.ofNat (256 + b.toNat)) ++
    ';' :: st.challenge.toList

/-- The bytes before the next credential, the credentials, and the challenge. -/
def parseAuthState : List Char → Option (Bytes × List Bytes × List Char)
  | [] => none
  | x :: xs =>
      if x = ';' then some ([], [], xs)
      else if x = '[' then (parseAuthState xs).map fun (pre, cs, r) => ([], pre :: cs, r)
      else (parseAuthState xs).map fun (pre, cs, r) => (UInt8.ofNat (x.toNat - 256) :: pre, cs, r)

theorem parseAuthState_bytes (c : Bytes) (xs : List Char) :
    parseAuthState (c.map (fun b => Char.ofNat (256 + b.toNat)) ++ xs) =
      (parseAuthState xs).map fun (pre, cs, r) => (c ++ pre, cs, r) := by
  induction c with
  | nil => simp
  | cons b c ih =>
      have hlt := b.toNat_lt
      have hval : (Char.ofNat (256 + b.toNat)).toNat = 256 + b.toNat := by
        have hvalid : (256 + b.toNat).isValidChar := .inl (by omega)
        rw [Char.ofNat, dif_pos hvalid]
        rfl
      have hne : ∀ d : Char, d.toNat < 256 → Char.ofNat (256 + b.toNat) ≠ d := by
        intro d hd he
        rw [← he, hval] at hd
        omega
      simp only [List.map_cons, List.cons_append, parseAuthState, hne ';' (by decide),
        hne '[' (by decide), if_false, ih, hval, Option.map_map, Nat.add_sub_cancel_left,
        UInt8.ofNat_toNat]
      rfl

theorem parseAuthState_text (st : PasskeyAuthentication) :
    parseAuthState (authStateText st) = some ([], st.credentials, st.challenge.toList) := by
  obtain ⟨challenge, creds⟩ := st
  unfold authStateText
  induction creds with
  | nil => simp [parseAuthState]
  | cons c creds ih =>
      have hopen : ∀ xs, parseAuthState ('[' :: xs) =
          (parseAuthState xs).map fun (pre, cs, r) => ([], pre :: cs, r) := by
        intro xs
        simp [parseAuthState]
      simp only [List.flatMap_cons, List.cons_append, List.append_assoc, hopen,
        parseAuthState_bytes] at ih ⊢
      rw [ih]
      simp

/-- A server with its libraries replaced by functions that evaluate. -/
def sampleState : AppState where
  publicUrl := "localhost"
  issuer := "https://localhost/auth/v1"
  listenScheme := .https
  refreshGraceTime := 5
  sessionLifetime := 14400
  sessionTimeout := 5400
  mlLtPwdFirst := 4320
  mlLtPwdReset := 30
  deviceGrantUserCodeLength := 8
  adminForceMfa := true
  deviceGrantCodeLifetime := 300
  deviceGrantPollInterval := 5
  deviceGrantRateLimit := none
  deviceGrantRefreshTokenLifetime := 72
  dpopForceNonce := false
  dpopNonceExp := 900
  dpopTokenEndpoint := "https://localhost/auth/v1/oidc/token"
  dynClientDefaultTokenLifetime := 1800
  dynClientSecretAutoRotate := true
  enableEphemeralClients := false
  enableSolidAud := false
  enableWebId := false
  encKeyActive := "key"
  passwordResetCookieBinding := true
  proxyMode := false
  pubUrlWithScheme := "https://localhost"
  refreshTokenLifetime := 48
  sessionRenewMfa := false
  sessionValidateIp := false
  userinfoStrict := true
  webauthnForceUv := false
  webauthnNoPasswordExpiry := true
  webauthnReqExp := 60
  toLowercase := id
  isLowercase c := 'a' ≤ c && c ≤ 'z'
  isUppercase c := 'A' ≤ c && c ≤ 'Z'
  isAlphanumeric c := ('a' ≤ c && c ≤ 'z') || ('A' ≤ c && c ≤ 'Z') || ('0' ≤ c && c ≤ '9')
  isUrl _ := false
  fromUtf8Lossy b := String.ofList (b.map fun x => Char.ofNat x.toNat)
  formatDateTime ms := toString ms
  parseDateTime _ := none
  decodeAuthHeader := .ok
  encrypt := .ok
  encryptWithKeyId _ := .ok
  getStaticKey _ := .ok ()
  decrypt := .ok
  sha256 := id
  base64Encode b := String.ofList (b.map fun x => Char.ofNat x.toNat)
  digest alg _ := ⟨List.replicate alg.outputLen 0, List.length_replicate⟩
  comparePasswords plain hash := .ok (plain == hash)
  argon2Uptodate _ := true
  decodeMfaCookie _ := .error ⟨.badRequest, "Webauthn Cookie is malformed"⟩
  decodeCallbackCookie := .ok
  decodeLinkCookie _ := none
  isToken68 _ := true
  decodeDPoP _ _ := .error ⟨.badRequest, "malformed DPoP header"⟩
  verifyDPoP _ _ := .ok ()
  validatePow := .ok
  rsaComponents _ der := some (der, der)
  ed25519PublicKey := some
  signJwt _ claims := .ok (match claims with
    | .access _ => "access token"
    | .id _ => "id token"
    | .refresh noise _ => "refresh token, found by its end: " ++ noise)
  kidFromToken _ := .ok "kid"
  validateRefreshJwt _ _ _ := .error ⟨.unauthorized, "invalid token"⟩
  validateJwt _ _ _ := .error ⟨.unauthorized, "Invalid Token"⟩
  jsonFromSlice _ := none
  jsonText := id
  jsonPath _ _ := none
  providersJson ps := String.join (ps.map (·.1))
  wellKnownJson issuer scopes := String.intercalate " " (issuer :: scopes)
  serializeAccess _ := []
  deserializeAccess _ := .ok []
  authStateToJson st := "\x7b" ++ String.ofList (authStateText st)
  authStateFromJson s := (parseAuthState s.toList.tail).map fun (_, cs, r) => ⟨String.ofList r, cs⟩
  updateCredential pk r :=
    if pk.credId = r.credId then some (pk.counter < r.counter, { pk with counter := r.counter })
    else none

def sampleUser : User where
  id := "alice"
  email := "alice@localhost"
  givenName := "Alice"
  familyName := "A"
  password := some "secret"
  roles := "admin"
  groups := none
  enabled := true
  emailVerified := true
  passwordExpires := none
  createdAt := 0
  lastLogin := none
  lastFailedLogin := none
  failedLoginAttempts := none
  language := .en
  webauthnUserId := none
  userExpires := none
  authProviderId := none
  federationUid := none

def sampleClient : Client where
  id := "app"
  name := none
  enabled := true
  confidential := false
  secret := none
  secretKid := none
  redirectUris := "https://app/callback"
  postLogoutRedirectUris := none
  allowedOrigins := none
  flowsEnabled := "authorization_code,password,client_credentials"
  accessTokenAlg := "EdDSA"
  idTokenAlg := "EdDSA"
  refreshToken := false
  authCodeLifetime := 60
  accessTokenLifetime := 1800
  scopes := "openid"
  defaultScopes := "openid"
  challenge := none
  forceMfa := false
  clientUri := none
  contacts := none

theorem sampleState_authStateFromJson (st : PasskeyAuthentication) :
    sampleState.authStateFromJson (sampleState.authStateToJson st) = some st := by
  simp [sampleState, parseAuthState_text]

end Rauthy
