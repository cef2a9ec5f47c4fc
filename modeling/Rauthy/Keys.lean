/-
Rauthy/Keys.lean

`rauthy-models/src/entity/jwk.rs` and `dpop_proof.rs`: the key pairs that sign the
tokens, and the validation of DPoP proofs.  Signing and verifying are library
functions of `AppState`.
-/
import Mathlib.Data.List.Sort
import Rauthy.AppState
import Rauthy.Monad

namespace Rauthy

open Prog

namespace CacheVal

def jwkKeyPair? : CacheVal → Option JwkKeyPair
  | jwkKeyPair v => some v
  | _ => none

def dpopNonce? : CacheVal → Option DPoPNonce
  | dpopNonce v => some v
  | _ => none

end CacheVal

/-! ### Key pairs -/

/-- `FromStr` of the algorithms -/
def JwkKeyPairAlg.fromStr (s : String) : Except ErrorResponse JwkKeyPairAlg :=
  if s = "RS256" then .ok .rs256
  else if s = "RS384" then .ok .rs384
  else if s = "RS512" then .ok .rs512
  else if s = "EdDSA" then .ok .edDSA
  else .error ⟨.badRequest, "Invalid JWT Token algorithm"⟩

theorem asStr_of_fromStr {alg : String} {typ : JwkKeyPairAlg}
    (h : JwkKeyPairAlg.fromStr alg = .ok typ) : alg = typ.asStr := by
  unfold JwkKeyPairAlg.fromStr at h
  split at h
  · next h' => cases h; exact h'
  split at h
  · next h' => cases h; exact h'
  split at h
  · next h' => cases h; exact h'
  split at h
  · next h' => cases h; exact h'
  · cases h

namespace JwkKeyPair

def decrypt (data : AppState) (jwk : Jwk) (typ : JwkKeyPairAlg) :
    Except ErrorResponse JwkKeyPair := do
  let bytes ← data.decrypt jwk.jwk
  return { kid := jwk.kid, typ, bytes }

def find (data : AppState) (kid : String) : M ErrorResponse JwkKeyPair :=
  cached .c12hr ("jwk_kid_" ++ kid) CacheVal.jwkKeyPair? .jwkKeyPair (do
    let jwk ← fetchOne .jwks fun j => j.kid == kid
    answer (decrypt data jwk jwk.signature))

/-- `JwkKeyPair::find_latest` takes the first of the keys in ascending order. -/
def findLatest (data : AppState) (alg : String) (typ : JwkKeyPairAlg) :
    M ErrorResponse JwkKeyPair :=
  cached .c12hr ("jwk_latest_" ++ alg) CacheVal.jwkKeyPair? .jwkKeyPair (do
    let rows ← select .jwks fun _ => true
    let jwks := (rows.filter (·.signature = typ)).insertionSort fun a b => a.createdAt ≤ b.createdAt
    let jwk ← unwrap "No latest JWK found - database corrupted?" jwks.head?
    answer (decrypt data jwk typ))

end JwkKeyPair

/-! ### DPoP -/

namespace DPoPNonce

def newValue (data : AppState) : M ErrorResponse String := do
  let ms ← now
  let value ← getRand 32
  let slf : DPoPNonce := { exp := ms + data.dpopNonceExp * 1000, value }
  cachePut .dpopNonces "latest" (.dpopNonce slf)
  -- also by its own value, because the latest may be overwritten before it expires
  cachePut .dpopNonces value (.dpopNonce slf)
  return value

/-- `cache_get!(..).await.is_ok()` -/
def isValid (value : String) : M ErrorResponse Bool := do
  match ← attempt (cacheGet .dpopNonces value CacheVal.dpopNonce?) with
  | .ok _ => return true
  | .error _ => return false

def getLatest (data : AppState) : M ErrorResponse String := do
  match ← cacheGet .dpopNonces "latest" CacheVal.dpopNonce? with
  | some slf =>
      let ms ← now
      if slf.exp < ms - 15000 then newValue data else return slf.value
  | none => newValue data

end DPoPNonce

namespace DPoPProof

/-- The nonce to answer with: the error message if there is none. -/
def latestNonce (data : AppState) : M ErrorResponse String := do
  match ← attempt (DPoPNonce.getLatest data) with
  | .ok v => return v
  | .error e => return e.message

/-- `DPoPProof::validate_nonce`: the nonce that the client has to use, if any. -/
def validateNonce (data : AppState) (proof : DPoPProof) : M ErrorResponse (Option String) :=
  match proof.claims.nonce with
  | some nonce => do
      let ok ← DPoPNonce.isValid nonce
      if ok then return none
      else
        let latest ← latestNonce data
        return some latest
  | none =>
      if data.dpopForceNonce then do
        let latest ← latestNonce data
        return some latest
      else return none

/-- `DPoPProof::validate` at the time `now`. -/
def validateAt (data : AppState) (proof : DPoPProof) (rawToken : String) (now : Int) :
    Except String Unit := do
  if proof.typ ≠ "dpop+jwt" then .error "Expected header typ of 'dpop+jwt'"
  data.verifyDPoP proof rawToken
  if proof.claims.htm ≠ "POST" then .error "The 'htm' claim from the DPoP header != POST"
  if proof.claims.htu ≠ data.dpopTokenEndpoint then .error "Invalid 'htu' claim"
  if proof.claims.iat < now - 60 ∨ proof.claims.iat > now then
    .error "DPoP 'iat' claim is out of range"

/-- `DPoPProof::opt_validated_from`: the proof in the `DPoP` header, validated. -/
def optValidatedFrom (data : AppState) (req : HttpRequest) (headerOrigin : Option String) :
    M ErrorResponse (Option DPoPProof) :=
  match req.dpop with
  | none => return none
  | some b64 => do
      throwIf (data.isToken68 b64 = false)
        (err (.dpop headerOrigin) "DPoP header must be in Token68 format")
      let slf ← answer (data.decodeDPoP headerOrigin b64)
      let now ← unixTimestamp
      match slf.validateAt data b64 now with
      | .error msg => fail (err (.dpop headerOrigin) msg)
      | .ok _ =>
          match ← slf.validateNonce data with
          | some nonce => fail (err (.useDpopNonce headerOrigin nonce)
              "DPoP 'nonce' is required in DPoP proof")
          | none => return some slf

end DPoPProof

/-- What the grants take from a proof: the fingerprint of its key and the header with
its nonce. -/
def dpopFingerprint (data : AppState) (req : HttpRequest) (headerOrigin : Option String) :
    M ErrorResponse (Option String × List (String × String)) := do
  match ← DPoPProof.optValidatedFrom data req headerOrigin with
  | some proof =>
      let fingerprint ← answer proof.fingerprint
      return (some fingerprint, proof.claims.nonce.toList.map fun n => ("DPoP-Nonce", n))
  | none => return (none, [])

/-! ### What they write -/

section Touches

theorem JwkKeyPair.find_touches (data : AppState) (kid : String) :
    Touches [] [(.c12hr, .jwkKeyPair)] (JwkKeyPair.find data kid) :=
  touches_cached (touches_bind (touches_fetchOne _ _) fun _ => touches_answer _)
    (by simp [CacheVal.slot])

theorem JwkKeyPair.findLatest_touches (data : AppState) (alg : String) (typ : JwkKeyPairAlg) :
    Touches [] [(.c12hr, .jwkKeyPair)] (JwkKeyPair.findLatest data alg typ) :=
  touches_cached
    (touches_bind (touches_select _ _) fun _ => touches_bind (touches_unwrap _ _) fun _ =>
      touches_answer _)
    (by simp [CacheVal.slot])

theorem JwkKeyPair.findLatest_noDel (data : AppState) (alg : String) (typ : JwkKeyPairAlg) :
    NoDel (JwkKeyPair.findLatest data alg typ) :=
  noDel_cached (noDel_bind (noDel_select _ _) fun _ => noDel_bind (noDel_unwrap _ _) fun _ =>
    noDel_answer _)

theorem DPoPNonce.newValue_touches (data : AppState) :
    Touches [] [(.dpopNonces, .dpopNonce)] (DPoPNonce.newValue data) :=
  touches_bind touches_now fun _ => touches_bind (touches_getRand _) fun _ =>
    touches_bind (touches_cachePut (by simp [CacheVal.slot]) _) fun _ =>
      touches_bind (touches_cachePut (by simp [CacheVal.slot]) _) fun _ => touches_ret _

theorem DPoPProof.latestNonce_touches (data : AppState) :
    Touches [] [(.dpopNonces, .dpopNonce)] (DPoPProof.latestNonce data) := by
  have hlatest : Touches [] [(.dpopNonces, .dpopNonce)] (DPoPNonce.getLatest data) := by
    refine touches_bind (touches_cacheGet _ _ _) fun x => ?_
    rcases x with - | slf
    · exact DPoPNonce.newValue_touches data
    · refine touches_bind touches_now fun ms => ?_
      split
      · exact DPoPNonce.newValue_touches data
      · exact touches_ret _
  refine touches_bind (touches_attempt hlatest) fun x => ?_
  rcases x with e | v <;> exact touches_ret _

theorem DPoPProof.validateNonce_touches (data : AppState) (proof : DPoPProof) :
    Touches [] [(.dpopNonces, .dpopNonce)] (proof.validateNonce data) := by
  unfold DPoPProof.validateNonce
  split
  · refine touches_bind (touches_bind (touches_attempt (touches_cacheGet _ _ _)) fun x => ?_)
      fun ok => ?_
    · rcases x with e | v <;> exact touches_ret _
    · split
      · exact touches_ret _
      · exact touches_bind (DPoPProof.latestNonce_touches data) fun _ => touches_ret _
  · split
    · exact touches_bind (DPoPProof.latestNonce_touches data) fun _ => touches_ret _
    · exact touches_ret _

theorem DPoPProof.optValidatedFrom_touches (data : AppState) (req : HttpRequest)
    (o : Option String) :
    Touches [] [(.dpopNonces, .dpopNonce)] (DPoPProof.optValidatedFrom data req o) := by
  unfold DPoPProof.optValidatedFrom
  split
  · exact touches_ret _
  · refine touches_bind (touches_throwIf _ _) fun _ => touches_bind (touches_answer _) fun slf => ?_
    refine touches_bind touches_unixTimestamp fun now => ?_
    split
    · exact touches_fail _
    · refine touches_bind (slf.validateNonce_touches data) fun x => ?_
      rcases x with - | n
      · exact touches_ret _
      · exact touches_fail _

theorem dpopFingerprint_touches (data : AppState) (req : HttpRequest) (o : Option String) :
    Touches [] [(.dpopNonces, .dpopNonce)] (dpopFingerprint data req o) := by
  refine touches_bind (DPoPProof.optValidatedFrom_touches data req o) fun x => ?_
  rcases x with - | proof
  · exact touches_ret _
  · exact touches_bind (touches_answer _) fun _ => touches_ret _

end Touches

end Rauthy
