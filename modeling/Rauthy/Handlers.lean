/-
Rauthy/Handlers.lean

The endpoints of `rauthy-handlers` around the logins, with the checks that they make
of the principal, and the system as a whole: any number of requests to them, in any
interleaving.

A registration of a passkey can be asked for by anyone and for any user here; what the
endpoint checks before only leaves fewer runs.
-/
import Rauthy.Account
import Rauthy.AuthProviders
import Rauthy.Principal

namespace Rauthy

open Prog Pool

/-! ### Endpoints -/

/-- The session that `GET /oidc/authorize` opens for the login form. -/
def newSession (data : AppState) (req : HttpRequest) : M ErrorResponse Session := do
  let session ← Session.new data.sessionLifetime req.realIp
  session.save
  return session

/-- `POST /oidc/authorize` -/
def postAuthorize (data : AppState) (req : HttpRequest) (reqData : LoginRequest) :
    M ErrorResponse AuthStep := do
  let principal ← getPrincipal data req
  let session ← answer principal.validateSessionAuthOrInit
  mapErr Prod.fst (authorize data req reqData session)

/-- `POST /oidc/authorize/refresh` -/
def postAuthorizeRefresh (data : AppState) (req : HttpRequest) (reqData : LoginRefreshRequest) :
    M ErrorResponse AuthStep := do
  let principal ← getPrincipal data req
  let session ← answer principal.validateSessionAuth
  let (client, headerOrigin) ← validateAuthReqParam data req reqData.clientId reqData.redirectUri
    reqData.codeChallenge reqData.codeChallengeMethod
  authorizeRefresh data session client headerOrigin reqData

/-- `POST /providers/callback` -/
def postProviderCallback (data : AppState) (req : HttpRequest) (payload : ProviderCallbackRequest) :
    M ErrorResponse AuthStep := do
  let principal ← getPrincipal data req
  let session ← answer principal.validateSessionAuthOrInit
  loginFinish data req payload session

/-- The rights that the start of a ceremony needs. -/
def checkAuthStart (req : HttpRequest) (principal : Principal) (id : String) :
    MfaPurpose → Except ErrorResponse Unit
  | .login _ => principal.validateSessionAuthOrInit.map fun _ => ()
  | .passwordReset =>
      match req.pwdResetCookie with
      | none => .error ⟨.badRequest,
          "You are not allowed to do this operation without an active binding cookie"⟩
      | some c =>
          if Text.len c ≠ 48 then .error ⟨.badRequest, "Malformed magic link binding cookie"⟩
          else .ok ()
  | _ => principal.validateSessionAuth.bind fun _ => principal.isUser id

/-- `POST /users/{id}/webauthn/auth/start` -/
def postWebauthnAuthStart (data : AppState) (req : HttpRequest) (id : String)
    (purpose : MfaPurpose) : M ErrorResponse WebauthnAuthStartResponse := do
  let principal ← getPrincipal data req
  answer (checkAuthStart req principal id purpose)
  authStart data id purpose

/-- `PUT /users/{id}/self` -/
def putUserSelf (data : AppState) (req : HttpRequest) (id : String) (upd : UpdateUserSelfRequest) :
    M ErrorResponse (User × Option UserValues × Bool) := do
  let principal ← getPrincipal data req
  let _ ← answer principal.validateSessionAuth
  answer (principal.isUser id)
  User.updateSelfReq data id upd

/-- An endpoint that asks for an admin session: who it is let in for. -/
def adminAccess (data : AppState) (req : HttpRequest) : M ErrorResponse Principal := do
  let principal ← getPrincipal data req
  answer (principal.validateAdminSession data)
  return principal

/-! ### The system -/

inductive Request where
  | newSession (req : HttpRequest)
  | authorize (req : HttpRequest) (reqData : LoginRequest)
  | authorizeRefresh (req : HttpRequest) (reqData : LoginRefreshRequest)
  | providerCallback (req : HttpRequest) (payload : ProviderCallbackRequest)
  | token (req : HttpRequest) (reqData : TokenRequest)
  | authStart (req : HttpRequest) (id : String) (purpose : MfaPurpose)
  | authFinish (id : String) (req : WebauthnAuthFinishRequest)
  | regStart (id passkeyName : String)
  | regFinish (id passkeyName cred : String)
  | userSelf (req : HttpRequest) (id : String) (upd : UpdateUserSelfRequest)
  | passwordReset (req : HttpRequest) (id : String) (reqData : PasswordResetRequest)
  | admin (req : HttpRequest)
  deriving DecidableEq

inductive Answer where
  | session (s : Session)
  | step (s : AuthStep)
  | token (a : DeviceAnswer)
  | authStarted (r : WebauthnAuthStartResponse)
  | authFinished (d : WebauthnAdditionalData)
  | regStarted (st : PasskeyRegistration)
  | registered
  | user (u : User) (values : Option UserValues) (emailUpdated : Bool)
  | reset (redirectUri : Option String)
  | admin (p : Principal)
  deriving DecidableEq

/-- What the server does for a request. -/
def Request.prog (data : AppState) : Request → M ErrorResponse Answer
  | newSession req => do return .session (← Rauthy.newSession data req)
  | authorize req reqData => do return .step (← postAuthorize data req reqData)
  | authorizeRefresh req reqData => do return .step (← postAuthorizeRefresh data req reqData)
  | providerCallback req payload => do return .step (← postProviderCallback data req payload)
  | token req reqData => do return .token (← postToken data req reqData)
  | authStart req id purpose => do return .authStarted (← postWebauthnAuthStart data req id purpose)
  | authFinish id req => do return .authFinished (← Rauthy.authFinish data id req)
  | regStart id passkeyName => do return .regStarted (← Rauthy.regStart id passkeyName)
  | regFinish id passkeyName cred => do
      Rauthy.regFinish data id passkeyName cred
      return .registered
  | userSelf req id upd => do
      let (user, values, emailUpdated) ← putUserSelf data req id upd
      return .user user values emailUpdated
  | passwordReset req id reqData => do
      return .reset (← handlePutUserPasswordReset data req id reqData)
  | admin req => do return .admin (← adminAccess data req)

end Rauthy
