/-
Rauthy/Devices.lean

The endpoints of the device flow in `rauthy-handlers/src/oidc.rs`: a device asks for a
code, its user accepts or declines it in a session of the browser, and the device polls
for its tokens (`grant_type_device_code` of `Rauthy.Auth`).  Around them the limit of
requests per IP (`ip_rate_limit.rs`) and the proof of work (`pow.rs`).
-/
import Rauthy.Auth
import Rauthy.Lib.Bincode
import Rauthy.Principal

namespace Rauthy

open Prog Bincode

namespace CacheVal

def pow? : CacheVal → Option String
  | pow challenge => some challenge
  | _ => none

/-- A value that is kept as its encoding, read at the type of `dec`. -/
def decoded? {α : Type} (dec : Dec α) : CacheVal → Option α
  | bytes v => (dec v).map Prod.fst
  | _ => none

end CacheVal

/-! ### Limits -/

namespace DeviceIpRateLimit

/-- What `insert` stores: the number of seconds, as an `Option<u32>`. -/
def encode (limit : Option ℕ) : Bytes := encOption (leBytes 4) limit

/-- What `is_limited` reads: a `DateTime<Utc>`, as its text. -/
def decode (data : AppState) : Dec Int := fun b => do
  let (text, b) ← decStr b
  let dt ← data.parseDateTime text
  return (dt, b)

def insert (data : AppState) (ip : String) : M ErrorResponse Unit :=
  cachePut .ipRateLimit ip (.bytes (encode data.deviceGrantRateLimit))

/-- An error of the cache counts as no limit. -/
def isLimited (data : AppState) (ip : String) : M ErrorResponse (Option Int) := do
  match ← attempt (cacheGet .ipRateLimit ip (CacheVal.decoded? (decode data))) with
  | .ok dt => return dt
  | .error _ => return none

end DeviceIpRateLimit

namespace PowEntity

/-- `PowEntity::check_prevent_reuse` -/
def checkPreventReuse (challenge : String) : M ErrorResponse Unit := do
  let found ← cacheGet .pow challenge CacheVal.pow?
  let pow ← okOr (err .notFound "PoW not found") found
  cacheDel .pow pow

end PowEntity

/-! ### The start of the flow -/

structure DeviceGrantRequest where
  clientId : String
  clientSecret : Option String
  scope : Option String
  deriving DecidableEq, Inhabited

structure DeviceCodeResponse where
  deviceCode : String
  userCode : String
  verificationUri : String
  verificationUriComplete : String
  expiresIn : Int
  interval : Int
  deriving DecidableEq, Inhabited

/-- The answer of `POST /oidc/device`: a code, or an error with its HTTP status. -/
inductive DeviceAuthAnswer where
  | ok (r : DeviceCodeResponse)
  | error (status : ℕ) (error : OAuth2ErrorTypeResponse) (description : String)
  deriving DecidableEq

/-- The answer to an IP that is limited; otherwise the request is noted. -/
def checkRateLimit (data : AppState) (req : HttpRequest) :
    M ErrorResponse (Option DeviceAuthAnswer) :=
  match data.deviceGrantRateLimit with
  | none => return none
  | some _ =>
      match req.realIp with
      | none => return some (.error 500 .invalidRequest
          "internal error - cannot extract IP from request")
      | some ip => do
          match ← DeviceIpRateLimit.isLimited data ip with
          | some dt => return some (.error 429 .invalidRequest
              ("no further requests allowed before: " ++ data.formatDateTime dt))
          | none =>
              ignoreErr (DeviceIpRateLimit.insert data ip)
              return none

/-- The checks of the client that a device names. -/
def checkDeviceClient (data : AppState) (client : Client) (payload : DeviceGrantRequest) :
    Option DeviceAuthAnswer :=
  if client.enabled = false then
    some (.error 400 .unauthorizedClient "Client has been disabled")
  else
    match client.validateFlow grantTypeDeviceCodeName with
    | .error e => some (.error 403 .unauthorizedClient e.message)
    | .ok _ =>
        if (payload.scope.toList.flatMap (Text.split ' ')).any
            (fun scope => !Text.contains client.scopes scope) then
          some (.error 500 .invalidScope ("Allowed scopes: " ++ client.scopes))
        else
          match client.getSecretCleartext data with
          | .ok secret =>
              if secret ≠ payload.clientSecret then
                some (.error 500 .unauthorizedClient "Invalid `client_secret`")
              else none
          -- a secret that cannot be decrypted is not compared
          | .error _ => none

/-- The code of a device whose client is fine. -/
def createDeviceCode (data : AppState) (client : Client) (payload : DeviceGrantRequest) :
    M ErrorResponse DeviceAuthAnswer := do
  match ← attempt (DeviceAuthCode.new data payload.scope client.id payload.clientSecret) with
  | .error e => return .error 500 .invalidRequest e.message
  | .ok code =>
      let userCode ← code.userCode data
      let uri := data.pubUrlWithScheme ++ "/auth/v1/device"
      return .ok
        { deviceCode := code.deviceCode, userCode, verificationUri := uri,
          verificationUriComplete := uri ++ "?code=" ++ userCode,
          expiresIn := data.deviceGrantCodeLifetime, interval := data.deviceGrantPollInterval }

/-- `POST /oidc/device` -/
def postDeviceAuth (data : AppState) (req : HttpRequest) (payload : DeviceGrantRequest) :
    M ErrorResponse DeviceAuthAnswer := do
  match ← checkRateLimit data req with
  | some a => return a
  | none =>
      match ← attempt (Client.find payload.clientId) with
      | .error _ => return .error 404 .invalidClient "`client_id` does not exist"
      | .ok client =>
          match checkDeviceClient data client payload with
          | some a => return a
          | none => createDeviceCode data client payload

/-! ### The decision of the user -/

inductive DeviceAcceptedRequest where
  | accept
  | decline
  | pending
  deriving DecidableEq

structure DeviceVerifyRequest where
  userCode : String
  pow : String
  deviceAccepted : DeviceAcceptedRequest
  deriving DecidableEq

/-- The answer of `POST /oidc/device/verify`: `202`, `204` or `200` -/
inductive DeviceVerifyAnswer where
  | accepted
  | declined
  | pending (scopes : Option String)
  deriving DecidableEq

/-- `Principal::user_id` -/
def Principal.tryUserId (p : Principal) : Except ErrorResponse String :=
  match p.userId with
  | some id => .ok id
  | none => .error ⟨.notFound, "No session for principal"⟩

/-- What is done with the code that was found. -/
def decideDevice (data : AppState) (principal : Principal) (code : DeviceAuthCode) :
    DeviceAcceptedRequest → M ErrorResponse DeviceVerifyAnswer
  | .accept => do
      let uid ← answer principal.tryUserId
      DeviceAuthCode.save data { code with verifiedBy := some uid }
      return .accepted
  | .decline => do
      code.delete data
      return .declined
  | .pending => return .pending code.scopes

/-- `POST /oidc/device/verify` -/
def postDeviceVerify (data : AppState) (req : HttpRequest) (payload : DeviceVerifyRequest) :
    M ErrorResponse DeviceVerifyAnswer := do
  let principal ← getPrincipal data req
  let _ ← answer principal.validateSessionAuth
  let challenge ← answer (data.validatePow payload.pow)
  PowEntity.checkPreventReuse challenge
  let found ← DeviceAuthCode.find data payload.userCode
  let code ← okOr (err .badRequest "DeviceAuthCode does not exist") found
  decideDevice data principal code payload.deviceAccepted

end Rauthy
