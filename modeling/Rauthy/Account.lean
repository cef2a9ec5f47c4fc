/-
Rauthy/Account.lean

What users do with their own accounts: `User::update_self_req` and
`handle_put_user_password_reset` of `rauthy-service/src/password_reset.rs`.  Both
accept an MFA code instead of another proof of identity.
-/
import Rauthy.Webauthn

namespace Rauthy

open Prog

/-- The MFA code of a request: a service request of this user, which is used up. -/
def User.checkMfaCode (user : User) (mfaCode : String) : M ErrorResponse Unit := do
  let svcReq ← WebauthnServiceReq.find mfaCode
  throwIf (svcReq.userId ≠ user.id) (err .forbidden "User ID does not match")
  svcReq.delete

/-! ### Updates by the user -/

/-- The new password of the request, after the current one or an MFA code. -/
def User.selfPassword (data : AppState) (user : User) (upd : UpdateUserSelfRequest) :
    M ErrorResponse (Option String) :=
  match upd.passwordNew with
  | none => return none
  | some pwdNew =>
      match upd.passwordCurrent, upd.mfaCode with
      | some pwdCurr, _ => do
          user.validatePassword data pwdCurr
          return some pwdNew
      | none, some mfaCode => do
          user.checkMfaCode mfaCode
          return some pwdNew
      | none, none =>
          fail (err .badRequest "Cannot set a new password without the current one")

/-- A new e-mail is only set after it has been confirmed. -/
def User.selfEmail (data : AppState) (user : User) (email : Option String) :
    M ErrorResponse Bool :=
  match email.map data.toLowercase with
  | none => return false
  | some email =>
      if email ≠ user.email then do
        MagicLink.invalidateAllEmailChange user.id
        let _ ← MagicLink.create user.id 60 (.emailChange email)
        return true
      else return false

/-- The update that a self request amounts to. -/
def User.selfUpdate (user : User) (upd : UpdateUserSelfRequest) (password : Option String) :
    UpdateUserRequest where
  email := user.email
  givenName := upd.givenName.getD user.givenName
  familyName := upd.familyName.getD user.familyName
  language := upd.language
  password := password
  roles := user.getRoles
  groups := if user.groups.isSome then some user.getGroups else none
  enabled := user.enabled
  emailVerified := user.emailVerified
  userExpires := user.userExpires
  userValues := upd.userValues

/-- `User::update_self_req` -/
def User.updateSelfReq (data : AppState) (id : String) (upd : UpdateUserSelfRequest) :
    M ErrorResponse (User × Option UserValues × Bool) := do
  let user ← User.find id
  let password ← user.selfPassword data upd
  let emailUpdated ← user.selfEmail data upd.email
  let (user, userValues, _) ← User.update data id (user.selfUpdate upd password) (some user)
  return (user, userValues, emailUpdated)

/-! ### Password resets -/

structure PasswordResetRequest where
  magicLinkId : String
  password : String
  mfaCode : Option String
  deriving DecidableEq, Inhabited

/-- The MFA code that a user with passkeys has to present. -/
def User.resetMfa (user : User) (mfaCode : Option String) : M ErrorResponse Unit :=
  if user.hasWebauthnEnabled then do
    let code ← okOr (err .badRequest "MFA code is missing") mfaCode
    user.checkMfaCode code
  else return ()

/-- `handle_put_user_password_reset`: the custom redirect uri. -/
def handlePutUserPasswordReset (data : AppState) (req : HttpRequest) (userId : String)
    (reqData : PasswordResetRequest) : M ErrorResponse (Option String) := do
  let user ← User.find userId
  user.resetMfa reqData.mfaCode
  let ml ← MagicLink.find reqData.magicLinkId
  ml.validate data user.id req true
  let user ← user.applyPasswordRules data reqData.password
  ml.invalidate
  let user := { user with emailVerified := true }
  user.save data none
  Session.invalidateForUser user.id
  match ← answer (MagicLinkUsage.tryFrom ml.usage) with
  | .newUser redirectUri => return redirectUri
  | .passwordReset redirectUri => return redirectUri
  | .emailChange _ => return none

end Rauthy
