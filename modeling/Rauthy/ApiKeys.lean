/-
Rauthy/ApiKeys.lean

`rauthy-models/src/entity/api_keys.rs`: the hash of the secret and the access rights of an API
key are stored encrypted, with the id of the key that encrypts both.  A key that has been
validated is cached, decrypted, for twelve hours.
-/
import Rauthy.AppState
import Rauthy.Monad

namespace Rauthy

open Prog

def CacheVal.apiKey? : CacheVal → Option ApiKey
  | apiKey v => some v
  | _ => none

@[simp] theorem CacheVal.apiKey?_eq_some {v : CacheVal} {k : ApiKey} :
    v.apiKey? = some k ↔ v = apiKey k := by
  cases v <;> simp [apiKey?]

/-- `ApiKey::validate_secret` -/
def ApiKey.validateSecret (data : AppState) (k : ApiKey) (secret : String) :
    M ErrorResponse Unit := do
  match k.expires with
  | some exp => do
      let now ← unixTimestamp
      throwIf (exp < now) (err .unauthorized "API Key has expired")
  | none => ret ()
  throwIf (data.sha256 (Text.asBytes secret) ≠ k.secret) (err .unauthorized "Invalid API-Key")

namespace ApiKeyEntity

def cacheIdx (name : String) : String := "api_key_" ++ name

def cacheInvalidate (name : String) : M ErrorResponse Unit := cacheDel .c12hr (cacheIdx name)

def create (data : AppState) (name : String) (expires : Option Int) (access : List ApiKeyAccess) :
    M ErrorResponse String := do
  let created ← unixTimestamp
  let secretPlain ← getRand 64
  let secret ← answer (data.encrypt (data.sha256 (Text.asBytes secretPlain)))
  let accessEnc ← answer (data.encrypt (data.serializeAccess access))
  execute [.insert .apiKeys
    { name, secret, created, expires, encKeyId := data.encKeyActive, access := accessEnc }]
  return name ++ "$" ++ secretPlain

def delete (name : String) : M ErrorResponse Unit := do
  execute [.delete .apiKeys fun k => k.name == name]
  cacheInvalidate name

def find (name : String) : M ErrorResponse ApiKeyEntity := fetchOne .apiKeys fun k => k.name == name

def findAll : M ErrorResponse (List ApiKeyEntity) := select .apiKeys fun _ => true

def intoApiKey (data : AppState) (k : ApiKeyEntity) : Except ErrorResponse ApiKey := do
  let secret ← data.decrypt k.secret
  let accessDec ← data.decrypt k.access
  let access ← data.deserializeAccess accessDec
  return { name := k.name, secret, created := k.created, expires := k.expires, access }

/-- The access rights are encrypted again with the possibly new active key as well. -/
def generateSecret (data : AppState) (name : String) : M ErrorResponse String := do
  let entity ← find name
  let apiKey ← answer (entity.intoApiKey data)
  let secretPlain ← getRand 64
  let secret ← answer (data.encrypt (data.sha256 (Text.asBytes secretPlain)))
  let access ← answer (data.encrypt (data.serializeAccess apiKey.access))
  execute [.update .apiKeys (fun k => k.name == name) fun k =>
    { k with secret, encKeyId := data.encKeyActive, access }]
  cacheInvalidate name
  return name ++ "$" ++ secretPlain

/-- Updates the API Key, but not the secret. -/
def update (data : AppState) (name : String) (expires : Option Int) (access : List ApiKeyAccess) :
    M ErrorResponse Unit := do
  let entity ← find name
  let apiKey ← answer (entity.intoApiKey data)
  let secret ← answer (data.encrypt apiKey.secret)
  let accessEnc ← answer (data.encrypt (data.serializeAccess access))
  execute [.update .apiKeys (fun k => k.name == name) fun k =>
    { k with secret, expires, encKeyId := data.encKeyActive, access := accessEnc }]
  cacheInvalidate name

def save (k : ApiKeyEntity) : M ErrorResponse Unit := do
  execute [.update .apiKeys (fun r => r.name == k.name) fun r =>
    { r with secret := k.secret, expires := k.expires, encKeyId := k.encKeyId, access := k.access }]
  cacheInvalidate k.name

def apiKeyFromTokenValidated (data : AppState) (token : String) : M ErrorResponse ApiKey := do
  let (name, secret) ← okOr (err .badRequest "Malformed API-Key") (Text.splitOnce token "$")
  let apiKey ← cached .c12hr (cacheIdx name) CacheVal.apiKey? .apiKey do
    let entity ← find name
    answer (entity.intoApiKey data)
  apiKey.validateSecret data secret
  return apiKey

end ApiKeyEntity

end Rauthy
