/-
Rauthy/Codes.lean

The entities between a login and its tokens: `auth_codes.rs`, `devices.rs` and
`refresh_tokens_devices.rs` of `rauthy-models/src/entity`.  Authorization codes and
device codes live in a cache only.
-/
import Rauthy.AppState
import Rauthy.Monad

namespace Rauthy

open Prog

namespace CacheVal

def authCode? : CacheVal → Option AuthCode
  | authCode v => some v
  | _ => none

@[simp] theorem authCode?_eq_some {v : CacheVal} {c : AuthCode} :
    v.authCode? = some c ↔ v = authCode c := by
  cases v <;> simp [authCode?]

def deviceAuthCode? : CacheVal → Option DeviceAuthCode
  | deviceAuthCode v => some v
  | _ => none

@[simp] theorem deviceAuthCode?_eq_some {v : CacheVal} {c : DeviceAuthCode} :
    v.deviceAuthCode? = some c ↔ v = deviceAuthCode c := by
  cases v <;> simp [deviceAuthCode?]

end CacheVal

/-! ### Authorization codes -/

namespace AuthCode

def delete (c : AuthCode) : M ErrorResponse Unit := cacheDel .authCodes c.id

def find (id : String) : M ErrorResponse (Option AuthCode) :=
  cacheGet .authCodes id CacheVal.authCode?

def save (c : AuthCode) : M ErrorResponse Unit := cachePut .authCodes c.id (.authCode c)

def new (userId clientId : String) (sessionId challenge challengeMethod nonce : Option String)
    (scopes : List String) (lifetimeSecs : Int) : M ErrorResponse AuthCode := do
  let id ← getRand 64
  let now ← unixTimestamp
  return { id, exp := now + lifetimeSecs, clientId, userId, sessionId, challenge,
           challengeMethod, nonce, scopes }

end AuthCode

/-! ### Devices -/

def DeviceEntity.insert (d : DeviceEntity) : M ErrorResponse Unit := execute [.insert .devices d]

def RefreshTokenDevice.create (id deviceId userId : String) (nbf exp : Int)
    (scope : Option String) : M ErrorResponse Unit :=
  execute [.upsert .refreshTokensDevices { id, deviceId, userId, nbf, exp, scope }]

/-- `&s[..n]`: the first `n` bytes; outside the text, or inside a character, a panic. -/
def sliceTo (s : String) (n : ℕ) : M ErrorResponse String :=
  unwrap "byte index out of bounds or not a char boundary" (Text.sliceTo s n)

namespace DeviceAuthCode

/-- `DeviceAuthCode::user_code` -/
def userCode (data : AppState) (c : DeviceAuthCode) : M ErrorResponse String :=
  sliceTo c.deviceCode data.deviceGrantUserCodeLength

def new (data : AppState) (scopes : Option String) (clientId : String)
    (clientSecret : Option String) : M ErrorResponse DeviceAuthCode := do
  let ms ← now
  let deviceCode ← getRand 64
  let slf : DeviceAuthCode :=
    { clientId, deviceCode, verifiedBy := none, exp := ms + data.deviceGrantCodeLifetime * 1000,
      lastPoll := ms, scopes, clientSecret, warnings := 0 }
  let key ← slf.userCode data
  cachePut .deviceCodes key (.deviceAuthCode slf)
  return slf

def delete (data : AppState) (c : DeviceAuthCode) : M ErrorResponse Unit := do
  let key ← c.userCode data
  cacheDel .deviceCodes key

def save (data : AppState) (c : DeviceAuthCode) : M ErrorResponse Unit := do
  let key ← c.userCode data
  cachePut .deviceCodes key (.deviceAuthCode c)

def find (data : AppState) (userCode : String) : M ErrorResponse (Option DeviceAuthCode) := do
  match ← cacheGet .deviceCodes userCode CacheVal.deviceAuthCode? with
  | none => return none
  | some slf =>
      let ms ← now
      if slf.exp < ms then
        slf.delete data
        return none
      else return some slf

def findByDeviceCode (data : AppState) (deviceCode : String) :
    M ErrorResponse (Option DeviceAuthCode) := do
  let key ← sliceTo deviceCode data.deviceGrantUserCodeLength
  find data key

end DeviceAuthCode

/-! ### What they write -/

section Touches

theorem AuthCode.new_touches (u c : String) (s ch m n : Option String) (scopes : List String)
    (lt : Int) : Touches [] [] (AuthCode.new u c s ch m n scopes lt) :=
  touches_bind (touches_getRand _) fun _ => touches_bind touches_unixTimestamp fun _ =>
    touches_ret _

theorem DeviceAuthCode.delete_touches (data : AppState) (c : DeviceAuthCode) :
    Touches [] [] (c.delete data) :=
  touches_bind (touches_unwrap _ _) fun _ => touches_cacheDel _ _

theorem DeviceAuthCode.save_touches (data : AppState) (c : DeviceAuthCode) :
    Touches [] [(.deviceCodes, .deviceAuthCode)] (c.save data) :=
  touches_bind (touches_unwrap _ _) fun _ => touches_cachePut (by simp [CacheVal.slot]) _

theorem DeviceAuthCode.findByDeviceCode_touches (data : AppState) (dc : String) :
    Touches [] [] (DeviceAuthCode.findByDeviceCode data dc) := by
  refine touches_bind (touches_unwrap _ _) fun key => touches_bind (touches_cacheGet _ _ _) fun x => ?_
  rcases x with - | slf
  · exact touches_ret _
  · refine touches_bind touches_now fun ms => ?_
    split
    · exact touches_bind (slf.delete_touches data) fun _ => touches_ret _
    · exact touches_ret _

end Touches

end Rauthy
