/-
Rauthy/Webauthn.lean

`rauthy-models/src/entity/webauthn.rs`: passkeys, and the ceremonies that register
and check them.  Login requests, service requests and the data of a running ceremony
share one cache, under random codes; they are stored as bincode bytes and read back
at whatever type the reader asks for, so their encodings are part of the model.

Texts of 4 GiB and more are left out: `save` refuses them, and no request body that
they could come from is that long.
-/
import Rauthy.Lib.Bincode
import Rauthy.Users

namespace Rauthy

open Prog Bincode

namespace CacheVal

def bytes? : CacheVal → Option Bytes
  | bytes v => some v
  | _ => none

def passkeys? : CacheVal → Option (List PasskeyEntity)
  | passkeys v => some v
  | _ => none

def credIds? : CacheVal → Option (List CredentialID)
  | credIds v => some v
  | _ => none

def webauthnReg? : CacheVal → Option WebauthnReg
  | webauthnReg v => some v
  | _ => none

@[simp] theorem passkeys?_eq_some {v : CacheVal} {l : List PasskeyEntity} :
    v.passkeys? = some l ↔ v = passkeys l := by
  cases v <;> simp [passkeys?]

end CacheVal

/-! ### The library -/

def startPasskeyAuthentication (pks : List Passkey) :
    M ErrorResponse (Except String PasskeyAuthentication) :=
  op (Op.startPasskeyAuthentication pks)

def finishPasskeyAuthentication (cred : String) (st : PasskeyAuthentication) :
    M ErrorResponse (Except String AuthenticationResult) :=
  op (Op.finishPasskeyAuthentication cred st)

def startPasskeyRegistration (uniqueId : String) (exclude : List CredentialID) :
    M ErrorResponse (Except String PasskeyRegistration) :=
  op (Op.startPasskeyRegistration uniqueId exclude)

def finishPasskeyRegistration (cred : String) (st : PasskeyRegistration) :
    M ErrorResponse (Except String (Passkey × Bool)) :=
  op (Op.finishPasskeyRegistration cred st)

/-! ### Passkeys -/

namespace PasskeyEntity

def cacheIdxSingle (userId name : String) : String := "webauthn_" ++ userId ++ name

def cacheIdxUser (userId : String) : String := "webauthn_" ++ userId

def cacheIdxCreds (userId : String) : String := "webauthn_" ++ userId ++ "_creds"

theorem cacheIdxUser_inj {a b : String} : cacheIdxUser a = cacheIdxUser b ↔ a = b :=
  String.append_right_inj _

def findCredIdsForUser (userId : String) : M ErrorResponse (List CredentialID) :=
  cached .webauthn (cacheIdxCreds userId) CacheVal.credIds? .credIds (do
    let rows ← select .passkeys fun pk => pk.userId == userId
    return rows.map PasskeyEntity.credentialId)

def findForUser (userId : String) : M ErrorResponse (List PasskeyEntity) :=
  cached .webauthn (cacheIdxUser userId) CacheVal.passkeys? .passkeys
    (select .passkeys fun pk => pk.userId == userId)

/-- Shares the key of `findForUser`, so it can answer with all passkeys. -/
def findForUserWithUv (userId : String) : M ErrorResponse (List PasskeyEntity) :=
  cached .webauthn (cacheIdxUser userId) CacheVal.passkeys? .passkeys
    (select .passkeys fun pk => pk.userId == userId && pk.userVerified == some true)

/-- `PasskeyEntity::create` inside a transaction: the statement for its commit. -/
def create (userId passkeyUserId name : String) (pk : Passkey) (userVerified : Bool) :
    M ErrorResponse DbWrite := do
  let now ← unixTimestamp
  let entity : PasskeyEntity :=
    { userId, name, passkeyUserId, passkey := pk, credentialId := pk.credId, registered := now,
      lastUsed := now, userVerified := some userVerified }
  execute []
  cacheDel .webauthn (cacheIdxUser userId)
  cacheDel .webauthn (cacheIdxCreds userId)
  return .insert .passkeys entity

/-- `PasskeyEntity::update_passkey` inside a transaction: the statement for its commit. -/
def updatePasskey (e : PasskeyEntity) : M ErrorResponse DbWrite := do
  execute []
  cachePut .webauthn (cacheIdxSingle e.userId e.name) (.passkey e)
  cacheDel .webauthn (cacheIdxUser e.userId)
  return .update .passkeys (fun r => r.userId == e.userId && r.name == e.name)
    fun r => { r with passkey := e.passkey, lastUsed := e.lastUsed }

end PasskeyEntity

/-- `User::save` inside a transaction: the statement for its commit. -/
def User.saveTxn (u : User) : M ErrorResponse DbWrite := do
  execute []
  u.saveCached none
  return u.saveStmt

/-- The statements of several `User::save` in one transaction. -/
def User.saveAll : List User → M ErrorResponse (List DbWrite)
  | [] => return []
  | u :: us => do
      let s ← u.saveTxn
      let ss ← User.saveAll us
      return s :: ss

/-- `User::convert_to_passkey`: the account keeps its passkeys only. -/
def User.convertToPasskey (data : AppState) (id : String) : M ErrorResponse Unit := do
  let user ← User.find id
  throwIf (user.accountType ≠ .password)
    (err .badRequest "Only AccountType::Password can be converted")
  throwIf (user.hasWebauthnEnabled = false)
    (err .badRequest "Account type conversion can only happen with at least one active Passkey")
  let pks ← PasskeyEntity.findForUserWithUv user.id
  throwIf (pks.isEmpty = true)
    (err .notFound "Could not find any passkeys with active User Verification")
  User.save data { user with password := none, passwordExpires := none } none

/-! ### The encodings -/

/-- The text is short enough for the model. -/
def fits (s : String) : Bool := (Text.asBytes s).length < 2 ^ 32

namespace WebauthnLoginReq

def encode (d : WebauthnLoginReq) : Bytes :=
  encStr d.code ++ (encStr d.userId ++ (encStr d.headerLoc ++ encOption encStr d.headerOrigin))

def decode : Dec WebauthnLoginReq := fun b => do
  let (code, b) ← decStr b
  let (userId, b) ← decStr b
  let (headerLoc, b) ← decStr b
  let (headerOrigin, b) ← decOption decStr b
  return ({ code, userId, headerLoc, headerOrigin }, b)

def Fits (d : WebauthnLoginReq) : Bool :=
  fits d.code && fits d.userId && fits d.headerLoc && d.headerOrigin.all fits

end WebauthnLoginReq

namespace WebauthnServiceReq

def encode (d : WebauthnServiceReq) : Bytes := encStr d.code ++ encStr d.userId

def decode : Dec WebauthnServiceReq := fun b => do
  let (code, b) ← decStr b
  let (userId, b) ← decStr b
  return ({ code, userId }, b)

def Fits (d : WebauthnServiceReq) : Bool := fits d.code && fits d.userId

end WebauthnServiceReq

namespace WebauthnAdditionalData

def encode : WebauthnAdditionalData → Bytes
  | login d => leBytes 4 0 ++ d.encode
  | service d => leBytes 4 1 ++ d.encode
  | test => leBytes 4 2

def decode : Dec WebauthnAdditionalData := fun b => do
  let (variant, b) ← decInt 4 b
  match variant with
  | 0 => (WebauthnLoginReq.decode b).map fun r => (login r.1, r.2)
  | 1 => (WebauthnServiceReq.decode b).map fun r => (service r.1, r.2)
  | 2 => some (test, b)
  | _ => none

def Fits : WebauthnAdditionalData → Bool
  | login d => d.Fits
  | service d => d.Fits
  | test => true

end WebauthnAdditionalData

namespace WebauthnData

def encode (d : WebauthnData) : Bytes :=
  encStr d.code ++ (encStr d.authStateJson ++ d.data.encode)

def decode : Dec WebauthnData := fun b => do
  let (code, b) ← decStr b
  let (authStateJson, b) ← decStr b
  let (data, b) ← WebauthnAdditionalData.decode b
  return ({ code, authStateJson, data }, b)

def Fits (d : WebauthnData) : Bool := fits d.code && fits d.authStateJson && d.data.Fits

end WebauthnData

/-! ### The shared cache -/

/-- `cache_get!` of a value of the shared cache at the type of `dec`. -/
def findData {α : Type} (dec : Dec α) (what code : String) : M ErrorResponse α := do
  let res ← cacheGet .webauthnData code fun v => (v.bytes?.bind dec).map Prod.fst
  okOr (err .notFound ("Webauthn " ++ what ++ " not found")) res

def saveData (fits : Bool) (code : String) (bytes : Bytes) : M ErrorResponse Unit := do
  throwIf (fits = false) (err .internal "Internal Cache error: Serialization")
  cachePut .webauthnData code (.bytes bytes)

namespace WebauthnLoginReq

def delete (d : WebauthnLoginReq) : M ErrorResponse Unit := cacheDel .webauthnData d.code

def find (code : String) : M ErrorResponse WebauthnLoginReq :=
  findData decode "Login Request Data" code

def save (d : WebauthnLoginReq) : M ErrorResponse Unit := saveData d.Fits d.code d.encode

end WebauthnLoginReq

namespace WebauthnServiceReq

def new (userId : String) : M ErrorResponse WebauthnServiceReq := do
  let code ← getRand 48
  return { code, userId }

def delete (d : WebauthnServiceReq) : M ErrorResponse Unit := cacheDel .webauthnData d.code

def find (code : String) : M ErrorResponse WebauthnServiceReq :=
  findData decode "Service Request Data" code

def save (d : WebauthnServiceReq) : M ErrorResponse Unit := saveData d.Fits d.code d.encode

end WebauthnServiceReq

namespace WebauthnData

def find (code : String) : M ErrorResponse WebauthnData := findData decode "Data" code

def save (d : WebauthnData) : M ErrorResponse Unit := saveData d.Fits d.code d.encode

end WebauthnData

/-- Only the login request is removed when its ceremony starts. -/
def WebauthnAdditionalData.delete : WebauthnAdditionalData → M ErrorResponse Unit
  | login d => d.delete
  | service _ => return ()
  | test => return ()

/-! ### Authentication -/

inductive MfaPurpose where
  | login (code : String)
  | passwordNew
  | passwordReset
  | test
  deriving DecidableEq

structure WebauthnAuthStartResponse where
  code : String
  challenge : String
  userVerificationRequired : Bool
  userId : String
  exp : Int
  deriving DecidableEq, Inhabited

structure WebauthnAuthFinishRequest where
  code : String
  /-- the public key credential with the assertion -/
  data : String
  deriving DecidableEq, Inhabited

/-- The data that a successful ceremony hands back to the client. -/
def addDataFor (userId : String) : MfaPurpose → M ErrorResponse WebauthnAdditionalData
  | .login code => do
      let d ← WebauthnLoginReq.find code
      return .login d
  | .passwordNew => newService
  | .passwordReset => newService
  | .test => return .test
where
  /-- a service request is saved before the ceremony -/
  newService : M ErrorResponse WebauthnAdditionalData := do
    let svcReq ← WebauthnServiceReq.new userId
    svcReq.save
    return .service svcReq

def forceUv (data : AppState) (user : User) : Bool :=
  user.accountType = .passkey || data.webauthnForceUv

/-- The passkeys that a ceremony asks for. -/
def passkeysFor (uv : Bool) (userId : String) : M ErrorResponse (List PasskeyEntity) :=
  if uv then PasskeyEntity.findForUserWithUv userId else PasskeyEntity.findForUser userId

/-- `auth_start`: the path names the user whose passkeys are asked for, the purpose
can name a login request of any user. -/
def authStart (data : AppState) (userId : String) (purpose : MfaPurpose) :
    M ErrorResponse WebauthnAuthStartResponse := do
  let addData ← addDataFor userId purpose
  let user ← User.find userId
  let uv := forceUv data user
  let pks ← passkeysFor uv user.id
  throwIf (pks.isEmpty = true)
    (err .notFound "No Security Keys with active user verification found")
  match ← startPasskeyAuthentication (pks.map PasskeyEntity.passkey) with
  | .error _ => fail (err .internal "Internal error with Webauthn Challenge Authentication")
  | .ok authState =>
      addData.delete
      let code ← getRand 48
      let authData : WebauthnData :=
        { code, authStateJson := data.authStateToJson authState, data := addData }
      authData.save
      return { code, challenge := authState.challenge, userVerificationRequired := uv,
               userId := user.id, exp := data.webauthnReqExp }

/-- The loop of `auth_finish` over the passkeys of the user. -/
def updateCredentials (data : AppState) (result : AuthenticationResult) (user : User) :
    List PasskeyEntity → M ErrorResponse Unit
  | [] => return ()
  | e :: es =>
      match data.updateCredential e.passkey result with
      | none => updateCredentials data result user es
      | some (updated, pk) => do
          let now ← unixTimestamp
          let e := { e with passkey := if updated then pk else e.passkey, lastUsed := now }
          let user := { user with
            lastLogin := some now, lastFailedLogin := none, failedLoginAttempts := none }
          execute []
          let updPasskey ← e.updatePasskey
          let updUser ← user.saveTxn
          execute [updPasskey, updUser]
          updateCredentials data result user es

/-- `auth_finish`: the path names the user whose account type and passkeys count. -/
def authFinish (data : AppState) (userId : String) (req : WebauthnAuthFinishRequest) :
    M ErrorResponse WebauthnAdditionalData := do
  let authData ← WebauthnData.find req.code
  let authState ← unwrap "called `Result::unwrap()` on an `Err` value"
    (data.authStateFromJson authData.authStateJson)
  let user ← User.find userId
  let pks ← PasskeyEntity.findForUser user.id
  match ← finishPasskeyAuthentication req.data authState with
  | .error msg => fail (err .unauthorized msg)
  | .ok result =>
      throwIf (forceUv data user = true ∧ result.userVerified = false)
        (err .forbidden "User Presence only is not allowed - Verification is needed")
      updateCredentials data result user pks
      return authData.data

/-! ### Registration -/

/-- `reg_{:?}_{}`: the name is quoted; names hold no character that is escaped. -/
def regIdx (passkeyName userId : String) : String := "reg_\"" ++ passkeyName ++ "\"_" ++ userId

/-- The user's id for the authenticators. -/
def passkeyUserIdOf (user : User) : M ErrorResponse String :=
  match user.webauthnUserId with
  | some id => return id
  | none => op Op.newUuid

def regStart (userId passkeyName : String) : M ErrorResponse PasskeyRegistration := do
  let user ← User.find userId
  let passkeyUserId ← passkeyUserIdOf user
  let credIds ← PasskeyEntity.findCredIdsForUser user.id
  match ← startPasskeyRegistration passkeyUserId credIds with
  | .error _ => fail (err .internal "Internal error with Webauthn Challenge Registration")
  | .ok regState =>
      cachePut .webauthn (regIdx passkeyName user.id)
        (.webauthnReg { userId := user.id, passkeyUserId, regState })
      return regState

/-- The user after its first passkey has been registered. -/
def User.withPasskey (data : AppState) (user : User) (passkeyUserId : String) : User :=
  { user with
    webauthnUserId := some passkeyUserId
    passwordExpires :=
      if user.password.isNone || data.webauthnNoPasswordExpiry then none else user.passwordExpires }

/-- The statement that links the first passkey to its user. -/
def linkPasskey (data : AppState) (user : User) (passkeyUserId : String) :
    M ErrorResponse (List DbWrite) :=
  match user.webauthnUserId with
  | some _ => return []
  | none => do
      let upd ← (user.withPasskey data passkeyUserId).saveTxn
      return [upd]

def regFinish (data : AppState) (id passkeyName cred : String) : M ErrorResponse Unit := do
  let user ← User.find id
  let idx := regIdx passkeyName user.id
  let res ← cacheGet .webauthn idx CacheVal.webauthnReg?
  let reg ← okOr (err .badRequest "Webauthn Registration Request not found") res
  cacheDel .webauthn idx
  match ← finishPasskeyRegistration cred reg.regState with
  | .error msg => fail (err .badRequest msg)
  | .ok (pk, userVerified) =>
      throwIf ((user.accountType ≠ .password ∨ data.webauthnForceUv = true) ∧ userVerified = false)
        (err .forbidden "User Presence only is not allowed - Verification is needed")
      execute []
      let updUser ← linkPasskey data user reg.passkeyUserId
      let insPasskey ← PasskeyEntity.create user.id reg.passkeyUserId passkeyName pk userVerified
      execute (updUser ++ [insPasskey])

end Rauthy
