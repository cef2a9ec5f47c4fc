/-
Rauthy/DPoP.lean

DPoP proofs, byte by byte: `DPoPProof::try_from_str`, `JWKSPublicKey::validate_self` and
`JWKSPublicKey::validate_token_signature`, which the other modules take as functions of the
server.  The proof is a token of the client, so each of its three parts is any text.

The signature primitives are functions of `Primitives`, behind the constructors of the keys and
signatures, which check the lengths.

Main result: `dpop_validated_iff`, for which headers the validation neither panics nor accepts a
signature for another algorithm than the one that the header names.
-/
import Rauthy.Auth
import Rauthy.Lib.Base64
import Rauthy.Userinfo

namespace Rauthy

open Prog

/-- `if c { return Err(e); }` -/
def failIf {ε : Type} (c : Prop) [Decidable c] (e : ε) : Except ε Unit :=
  if c then .error e else .ok ()

/-! ### Keys and signatures -/

/-- The hashes of the RSA signatures. -/
inductive Sha2 where
  | sha256
  | sha384
  | sha512
  deriving DecidableEq, Inhabited

structure Ed25519PublicKey where
  bytes : Bytes
  length_bytes : bytes.length = 32

structure Ed25519Signature where
  bytes : Bytes
  length_bytes : bytes.length = 64

def Ed25519PublicKey.fromSlice (pk : Bytes) : Option Ed25519PublicKey :=
  if h : pk.length = 32 then some ⟨pk, h⟩ else none

def Ed25519Signature.fromSlice (signature : Bytes) : Option Ed25519Signature :=
  if h : signature.length = 64 then some ⟨signature, h⟩ else none

structure DPoPHeader where
  typ : String
  alg : JwkKeyPairAlg
  jwk : JWKSPublicKey
  kid : Option String
  deriving DecidableEq, Inhabited

/-- Without an algorithm of its own, the key gets the one of the header. -/
def DPoPHeader.withAlg (header : DPoPHeader) : DPoPHeader :=
  { header with jwk := { header.jwk with alg := some (header.jwk.alg.getD header.alg) } }

/-- The libraries under the validation. -/
structure Primitives where
  /-- `RsaPublicKey::new` accepts modulus and exponent -/
  rsaPublicKey : ℕ → ℕ → Bool
  /-- `RsaPublicKey::verify` of the message and the signature, with `Pkcs1v15Sign` -/
  rsaVerify : Sha2 → ℕ → ℕ → Bytes → Bytes → Bool
  /-- `ed25519_compact::PublicKey::verify` -/
  ed25519Verify : Ed25519PublicKey → Bytes → Ed25519Signature → Bool
  /-- `serde_json::from_str`, with the text of the error -/
  headerFromJson : String → Except String DPoPHeader
  claimsFromJson : String → Except String DPoPClaims
  /-- the text of a `FromUtf8Error` -/
  utf8Error : Bytes → String

/-- A signature of PKCS #1 v1.5 names its hash, so it verifies for one hash only. -/
def Primitives.HashesDistinct (prims : Primitives) : Prop :=
  ∀ h h' n e message signature, prims.rsaVerify h n e message signature = true →
    prims.rsaVerify h' n e message signature = true → h = h'

/-- `base64_url_no_pad_decode` -/
def base64UrlNoPadDecode (b64 : String) : Except ErrorResponse Bytes :=
  match Base64.decode Base64.urlSafe false b64.toList with
  | some bytes => .ok bytes
  | none => .error ⟨.badRequest, "B64 decoding error"⟩

/-- `BigUint::from_bytes_be` -/
def bigUintFromBytesBe (bytes : Bytes) : ℕ := bytes.foldl (fun n b => n * 256 + b.toNat) 0

namespace JWKSPublicKey

/-- `JWKSPublicKey::alg` -/
def getAlg (slf : JWKSPublicKey) : Except ErrorResponse JwkKeyPairAlg :=
  match slf.alg with
  | some alg => .ok alg
  | none => .error ⟨.internal, "No 'alg' in JwkKeyPublicKey"⟩

/-- A component of the key. -/
def component (name : String) : Option String → Except ErrorResponse Bytes
  | some value => base64UrlNoPadDecode value
  | none => .error ⟨.internal, "No '" ++ name ++ "' in JwkKeyPublicKey"⟩

/-- `JWKSPublicKey::n` -/
def getN (slf : JWKSPublicKey) : Except ErrorResponse ℕ :=
  (component "n" slf.n).map bigUintFromBytesBe

/-- `JWKSPublicKey::e` -/
def getE (slf : JWKSPublicKey) : Except ErrorResponse ℕ :=
  (component "e" slf.e).map bigUintFromBytesBe

/-- `JWKSPublicKey::x` -/
def getX (slf : JWKSPublicKey) : Except ErrorResponse Bytes := component "x" slf.x

/-- `JWKSPublicKey::fingerprint` -/
def fingerprint (data : AppState) (slf : JWKSPublicKey) :
    Except ErrorResponse String := do
  let s ← match slf.kty with
    | .rsa =>
        match slf.e, slf.n with
        | some e, some n =>
            .ok ("\x7b\"e\":\"" ++ e ++ "\",\"kty\":\"RSA\",\"n\":\"" ++ n ++ "\"\x7d")
        | _, _ => .error ⟨.internal, "Incorrect format for RSA JWK: e / n missing"⟩
    | .okp =>
        match slf.crv, slf.x with
        | some crv, some x =>
            .ok ("\x7b\"crv\":\"" ++ crv ++ "\",\"kty\":\"OKP\",\"x\":\"" ++ x ++ "\"\x7d")
        | _, _ => .error ⟨.internal, "Incorrect format for OKP JWK: crv / x missing"⟩
  return base64UrlEncode data (data.sha256 (Text.asBytes s))

/-- `JWKSPublicKey::validate_self` -/
def validateSelf (slf : JWKSPublicKey) : Except ErrorResponse Unit :=
  match slf.alg with
  | none => .error ⟨.badRequest, "No 'alg' for JWK"⟩
  | some alg =>
      match slf.kty with
      | .rsa => do
          failIf (alg = .edDSA) ⟨.badRequest, "RSA kty cannot have EdDSA alg"⟩
          failIf (slf.n.isNone ∨ slf.e.isNone)
            ⟨.badRequest, "No public key components for RSA key"⟩
          failIf slf.x.isSome ⟨.badRequest, "RSA key cannot have 'x' public key component"⟩
      | .okp => do
          failIf (alg ≠ .edDSA) ⟨.badRequest, "OKP kty must have EdDSA alg"⟩
          failIf slf.crv.isNone ⟨.badRequest, "OKP kty must have 'crv'"⟩
          failIf (slf.crv ≠ some "Ed25519") ⟨.badRequest, "Only 'Ed25519' for 'crv' is supported"⟩
          failIf (slf.n.isSome ∨ slf.e.isSome)
            ⟨.badRequest, "EdDSA key cannot have 'n' or 'e' public key components"⟩
          failIf slf.x.isNone ⟨.badRequest, "OKP key must have 'x' public key component"⟩

/-! #### Signatures -/

variable (prims : Primitives) (slf : JWKSPublicKey) (message signature : Bytes)

/-- The branches of `validate_token_signature` for RSA. -/
def verifyRsa (hash : Sha2) : Except (Fault ErrorResponse) Bool := do
  let n ← slf.getN.mapError .err
  let e ← slf.getE.mapError .err
  return prims.rsaPublicKey n e && prims.rsaVerify hash n e message signature

/-- The branch for `EdDSA`.  A signature of another length than 64 is not expected here. -/
def verifyEdDSA : Except (Fault ErrorResponse) Bool := do
  let x ← slf.getX.mapError .err
  match Ed25519PublicKey.fromSlice x with
  | none => return false
  | some pubkey =>
      match Ed25519Signature.fromSlice signature with
      | none => .error (.panic "called Result::unwrap() on an Err value: InvalidSignature")
      | some signature => return prims.ed25519Verify pubkey message signature

/-- Whether the signature of the message verifies with the algorithm. -/
def verifyWith : JwkKeyPairAlg → Except (Fault ErrorResponse) Bool
  | .rs256 => slf.verifyRsa prims message signature .sha256
  | .rs384 => slf.verifyRsa prims message signature .sha384
  | .rs512 => slf.verifyRsa prims message signature .sha512
  | .edDSA => slf.verifyEdDSA prims message signature

/-- `JWKSPublicKey::validate_token_signature` -/
def validateTokenSignature (token : String) : Except (Fault ErrorResponse) Unit :=
  match Text.splitOnce token "." with
  | none => .error (err .badRequest "Malformed token")
  | some (header, rest) =>
      match Text.splitOnce rest "." with
      | none => .error (err .badRequest "Malformed token")
      | some (claims, sigStr) =>
          match base64UrlNoPadDecode sigStr with
          | .error _ => .error (.panic "called Result::unwrap() on an Err value: ErrorResponse")
          | .ok sigBytes => do
              let alg ← slf.getAlg.mapError .err
              let valid ← slf.verifyWith prims (Text.asBytes (header ++ "." ++ claims)) sigBytes alg
              failIf (valid = false) (err .unauthorized "Invalid JWT Token")

end JWKSPublicKey

/-! ### Proofs -/

/-- The characters of `RE_TOKEN_68` before the padding. -/
def isToken68Char (c : Char) : Bool := isAlnum c || ['-', '.', '_', '~', '+', '/'].contains c

/-- `RE_TOKEN_68` -/
def reToken68 (s : String) : Bool :=
  !(s.toList.takeWhile isToken68Char).isEmpty && (s.toList.dropWhile isToken68Char).all (· == '=')

/-- `DPoPProof`, with everything that is read from the header. -/
structure DPoPParts where
  header : DPoPHeader
  claims : DPoPClaims
  signature : Bytes
  deriving DecidableEq, Inhabited

namespace DPoPParts

/-- What the other modules keep of a proof. -/
def toProof (data : AppState) (slf : DPoPParts) : DPoPProof where
  typ := slf.header.typ
  claims := slf.claims
  fingerprint := slf.header.jwk.fingerprint data

variable (prims : Primitives)

/-- A part of the token as a text. -/
def textOf (part : String) : Except ErrorResponse String := do
  let bytes ← base64UrlNoPadDecode part
  match String.fromUTF8? bytes.toByteArray with
  | some s => .ok s
  | none => .error ⟨.internal, prims.utf8Error bytes⟩

/-- `From<serde_json::Error>` -/
def jsonError (e : String) : ErrorResponse :=
  ⟨.badRequest, "Payload deserialization error: " ++ e⟩

/-- `DPoPProof::try_from_str` -/
def tryFromStr (origin : Option String) (value : String) : Except ErrorResponse DPoPParts :=
  match Text.splitOnce value "." with
  | none => .error ⟨.dpop origin, "Invalid DPoP header format"⟩
  | some (header, rest) => do
      let s ← textOf prims header
      let header ← (prims.headerFromJson s).mapError jsonError
      match Text.splitOnce rest "." with
      | none => .error ⟨.dpop origin, "Invalid DPoP claims format"⟩
      | some (claims, signature) => do
          let s ← textOf prims claims
          let claims ← (prims.claimsFromJson s).mapError jsonError
          let signature ← base64UrlNoPadDecode signature
          return { header := header.withAlg, claims, signature }

/-- The key and the signature: steps 5 and 6 of `DPoPProof::validate`. -/
def verify (slf : DPoPParts) (rawToken : String) : Except (Fault String) Unit := do
  slf.header.jwk.validateSelf.mapError fun e => .err e.message
  (slf.header.jwk.validateTokenSignature prims rawToken).mapError (Fault.map ErrorResponse.message)

/-- `DPoPProof::validate` at the time `now`. -/
def validateAt (data : AppState) (slf : DPoPParts) (rawToken : String) (now : Int) :
    Except (Fault String) Unit := do
  failIf (slf.header.typ ≠ "dpop+jwt") (.err "Expected header typ of 'dpop+jwt'")
  slf.verify prims rawToken
  failIf (slf.claims.htm ≠ "POST") (.err "The 'htm' claim from the DPoP header != POST")
  failIf (slf.claims.htu ≠ data.dpopTokenEndpoint) (.err "Invalid 'htu' claim")
  failIf (slf.claims.iat < now - 60 ∨ slf.claims.iat > now)
    (.err "DPoP 'iat' claim is out of range")

/-- The rest of `opt_validated_from`, after the checks of `validate`. -/
def afterValidate (data : AppState) (slf : DPoPParts) (headerOrigin : Option String) :
    Except (Fault String) Unit → M ErrorResponse (Option DPoPParts)
  | .error (.panic msg) => fail (.panic msg)
  | .error (.err msg) => fail (err (.dpop headerOrigin) msg)
  | .ok _ => do
      match ← (slf.toProof data).validateNonce data with
      | some nonce => fail (err (.useDpopNonce headerOrigin nonce)
          "DPoP 'nonce' is required in DPoP proof")
      | none => return some slf

/-- `DPoPProof::opt_validated_from` -/
def optValidatedFrom (data : AppState) (req : HttpRequest) (headerOrigin : Option String) :
    M ErrorResponse (Option DPoPParts) :=
  match req.dpop with
  | none => return none
  | some b64 => do
      throwIf (b64.toList.all isVisibleAscii = false)
        (err .badRequest "Request headers contained non ASCII characters: ToStrError")
      throwIf (reToken68 b64 = false)
        (err (.dpop headerOrigin) "DPoP header must be in Token68 format")
      let slf ← answer (tryFromStr prims headerOrigin b64)
      let now ← unixTimestamp
      afterValidate data slf headerOrigin (slf.validateAt prims data b64 now)

end DPoPParts

/-! ### What the checks decide -/

section FailIf

variable {ε : Type} {e : ε}

@[simp] theorem failIf_eq_ok {c : Prop} [Decidable c] {u : Unit} : failIf c e = .ok u ↔ ¬ c := by
  by_cases hc : c <;> simp [failIf, hc]

@[simp] theorem failIf_eq_error {c : Prop} [Decidable c] {e' : ε} :
    failIf c e = .error e' ↔ c ∧ e = e' := by
  by_cases hc : c <;> simp [failIf, hc]

end FailIf

/-- The text that is signed: the first two parts of the token. -/
def signedText (token : String) : Bytes :=
  match Text.splitOnce token "." with
  | none => []
  | some (header, rest) =>
      match Text.splitOnce rest "." with
      | none => []
      | some (claims, _) => Text.asBytes (header ++ "." ++ claims)

namespace JWKSPublicKey

variable {prims : Primitives} {slf : JWKSPublicKey} {message signature : Bytes}

theorem verifyRsa_ne_panic (hash : Sha2) (msg : String) :
    slf.verifyRsa prims message signature hash ≠ .error (.panic msg) := by
  intro h
  rcases bind_eq_error.mp h with h | ⟨n, -, h⟩
  · obtain ⟨_, -, he⟩ := mapError_eq_error.mp h
    cases he
  · rcases bind_eq_error.mp h with h | ⟨e, -, h⟩
    · obtain ⟨_, -, he⟩ := mapError_eq_error.mp h
      cases he
    · cases h

/-- The only call that panics is for a signature of a wrong length. -/
theorem verifyWith_panics {alg : JwkKeyPairAlg} :
    (∃ msg, slf.verifyWith prims message signature alg = .error (.panic msg)) ↔
      alg = .edDSA ∧ (∃ x, slf.getX = .ok x ∧ x.length = 32) ∧ signature.length ≠ 64 := by
  constructor
  · rintro ⟨msg, h⟩
    cases alg with
    | rs256 => exact absurd h (verifyRsa_ne_panic _ _)
    | rs384 => exact absurd h (verifyRsa_ne_panic _ _)
    | rs512 => exact absurd h (verifyRsa_ne_panic _ _)
    | edDSA =>
      rcases bind_eq_error.mp h with h | ⟨x, hx, h⟩
      · obtain ⟨_, -, he⟩ := mapError_eq_error.mp h
        cases he
      · refine ⟨rfl, ?_⟩
        unfold Ed25519PublicKey.fromSlice Ed25519Signature.fromSlice at h
        split at h
        · cases h
        · next pubkey hkey =>
          split at hkey
          · next hlen =>
            split at h
            · next hsig =>
              split at hsig
              · cases hsig
              · next hne => exact ⟨⟨x, mapError_eq_ok.mp hx, hlen⟩, hne⟩
            · cases h
          · cases hkey
  · rintro ⟨rfl, ⟨x, hx, hlen⟩, hsig⟩
    refine ⟨"called Result::unwrap() on an Err value: InvalidSignature",
      bind_eq_error.mpr (.inr ⟨x, mapError_eq_ok.mpr hx, ?_⟩)⟩
    simp only [Ed25519PublicKey.fromSlice, Ed25519Signature.fromSlice, dif_pos hlen, dif_neg hsig]

end JWKSPublicKey

namespace DPoPParts

variable {prims : Primitives} {data : AppState} {origin : Option String} {b64 : String}
  {p : DPoPParts} {now : Int}
  {alg : JwkKeyPairAlg}

/-- A proof that is decoded has three parts, and its key has an algorithm. -/
theorem tryFromStr_parts (h : tryFromStr prims origin b64 = .ok p) :
    ∃ header rest claims sigStr, Text.splitOnce b64 "." = some (header, rest) ∧
      Text.splitOnce rest "." = some (claims, sigStr) ∧
      base64UrlNoPadDecode sigStr = .ok p.signature ∧ ∃ alg, p.header.jwk.alg = some alg := by
  unfold tryFromStr at h
  split at h
  · cases h
  · next header rest hsplit =>
    obtain ⟨s, -, h⟩ := bind_eq_ok.mp h
    obtain ⟨hdr, -, h⟩ := bind_eq_ok.mp h
    split at h
    · cases h
    · next claims sigStr hsplit' =>
      obtain ⟨t, -, h⟩ := bind_eq_ok.mp h
      obtain ⟨c, -, h⟩ := bind_eq_ok.mp h
      obtain ⟨signature, hsig, h⟩ := bind_eq_ok.mp h
      cases h
      exact ⟨header, rest, claims, sigStr, hsplit, hsplit', hsig, _, rfl⟩

/-- On a proof that was decoded, the token is split and its signature decoded once more. -/
theorem validateTokenSignature_eq (h : tryFromStr prims origin b64 = .ok p)
    (halg : p.header.jwk.alg = some alg) :
    p.header.jwk.validateTokenSignature prims b64 = (do
      let valid ← p.header.jwk.verifyWith prims (signedText b64) p.signature alg
      failIf (valid = false) (err .unauthorized "Invalid JWT Token")) := by
  obtain ⟨header, rest, claims, sigStr, h₁, h₂, h₃, -⟩ := tryFromStr_parts h
  have hgetAlg : p.header.jwk.getAlg = .ok alg := by
    unfold JWKSPublicKey.getAlg
    rw [halg]
  unfold JWKSPublicKey.validateTokenSignature signedText
  simp only [h₁, h₂, h₃, hgetAlg]
  rfl

theorem verify_ok_iff (h : tryFromStr prims origin b64 = .ok p) (halg : p.header.jwk.alg = some alg) :
    p.verify prims b64 = .ok () ↔ p.header.jwk.validateSelf = .ok () ∧
      p.header.jwk.verifyWith prims (signedText b64) p.signature alg = .ok true := by
  unfold verify
  rw [bind_eq_ok, validateTokenSignature_eq h halg]
  simp only [mapError_eq_ok, bind_eq_ok]
  constructor
  · rintro ⟨_, hself, valid, hvalid, hok⟩
    cases valid with
    | true => exact ⟨hself, hvalid⟩
    | false => cases hok
  · rintro ⟨hself, hvalid⟩
    exact ⟨(), hself, true, hvalid, rfl⟩

theorem verify_panics_iff (h : tryFromStr prims origin b64 = .ok p)
    (halg : p.header.jwk.alg = some alg) :
    (∃ msg, p.verify prims b64 = .error (.panic msg)) ↔ p.header.jwk.validateSelf = .ok () ∧
      ∃ msg, p.header.jwk.verifyWith prims (signedText b64) p.signature alg =
        .error (.panic msg) := by
  unfold verify
  simp only [bind_eq_error, mapError_eq_error, mapError_eq_ok, validateTokenSignature_eq h halg]
  constructor
  · rintro ⟨msg, ⟨e, -, he⟩ | ⟨_, hself, e, hverify, he⟩⟩
    · cases he
    · cases e with
      | err e => cases he
      | panic msg' =>
        refine ⟨hself, msg', ?_⟩
        rcases hverify with hverify | ⟨valid, -, hnot⟩
        · exact hverify
        · cases valid <;> cases hnot
  · rintro ⟨hself, msg, hverify⟩
    exact ⟨msg, .inr ⟨(), hself, .panic msg, .inl hverify, rfl⟩⟩

theorem validateAt_ok_iff (h : tryFromStr prims origin b64 = .ok p)
    (halg : p.header.jwk.alg = some alg) :
    p.validateAt prims data b64 now = .ok () ↔ p.header.typ = "dpop+jwt" ∧
      (p.header.jwk.validateSelf = .ok () ∧
        p.header.jwk.verifyWith prims (signedText b64) p.signature alg = .ok true) ∧
      p.claims.htm = "POST" ∧ p.claims.htu = data.dpopTokenEndpoint ∧
      now - 60 ≤ p.claims.iat ∧ p.claims.iat ≤ now := by
  unfold validateAt
  simp only [bind_eq_ok, verify_ok_iff h halg, failIf_eq_ok, not_not, not_or, not_lt, gt_iff_lt,
    exists_const]

theorem validateAt_panics_iff (h : tryFromStr prims origin b64 = .ok p)
    (halg : p.header.jwk.alg = some alg) :
    (∃ msg, p.validateAt prims data b64 now = .error (.panic msg)) ↔
      p.header.typ = "dpop+jwt" ∧ p.header.jwk.validateSelf = .ok () ∧
        ∃ msg, p.header.jwk.verifyWith prims (signedText b64) p.signature alg =
          .error (.panic msg) := by
  rw [← verify_panics_iff h halg]
  unfold validateAt
  simp only [bind_eq_error, failIf_eq_error, failIf_eq_ok, reduceCtorEq, and_false, false_or,
    or_false, exists_false, exists_const, not_not, exists_and_left, ne_eq]

/-! ### When the validation is sound -/

/-- The validation has not panicked, and the signature of an accepted proof verifies with the
algorithm that the header names. -/
structure Sound (prims : Primitives) (b64 : String)
    (r : Except (Fault ErrorResponse) (Option DPoPParts)) : Prop where
  noPanic : ∀ msg, r ≠ .error (.panic msg)
  verified : ∀ p, r = .ok (some p) →
    p.header.jwk.verifyWith prims (signedText b64) p.signature p.header.alg = .ok true

/-- A proof with a supported key has a signature of the right length, and its key names the
algorithm of the header if the rest of the proof is accepted. -/
structure Consistent (prims : Primitives) (data : AppState) (b64 : String) (p : DPoPParts) :
    Prop where
  length : p.header.typ = "dpop+jwt" → p.header.jwk.validateSelf = .ok () →
    p.header.jwk.alg = some .edDSA → (∃ x, p.header.jwk.getX = .ok x ∧ x.length = 32) →
    p.signature.length = 64
  alg : p.header.typ = "dpop+jwt" → p.header.jwk.validateSelf = .ok () →
    ∀ alg, p.header.jwk.alg = some alg →
    p.header.jwk.verifyWith prims (signedText b64) p.signature alg = .ok true →
    p.claims.htm = "POST" → p.claims.htu = data.dpopTokenEndpoint →
    (p.claims.nonce = none → data.dpopForceNonce = false) → alg = p.header.alg

end DPoPParts

namespace JWKSPublicKey

variable {prims : Primitives} {slf : JWKSPublicKey} {message signature : Bytes}
  {alg : JwkKeyPairAlg}

/-- The hash of an algorithm for RSA keys. -/
def hashOf : JwkKeyPairAlg → Option Sha2
  | .rs256 => some .sha256
  | .rs384 => some .sha384
  | .rs512 => some .sha512
  | .edDSA => none

theorem hashOf_inj {alg' : JwkKeyPairAlg} (h : hashOf alg = hashOf alg') : alg = alg' := by
  cases alg <;> cases alg' <;> first | rfl | cases h

theorem component_isSome {name : String} {c : Option String} {b : Bytes}
    (h : component name c = .ok b) : c.isSome = true := by
  cases c with
  | some value => rfl
  | none => cases h

/-- A signature that verifies is one of RSA, for a key with a modulus, or one of EdDSA, for a key
with a point. -/
theorem verifyWith_true (h : slf.verifyWith prims message signature alg = .ok true) :
    (∃ hash n e, hashOf alg = some hash ∧ slf.n.isSome = true ∧ slf.getN = .ok n ∧
      slf.getE = .ok e ∧ prims.rsaVerify hash n e message signature = true) ∨
    hashOf alg = none ∧ slf.x.isSome = true := by
  have hrsa : ∀ {hash}, slf.verifyRsa prims message signature hash = .ok true →
      ∃ n e, slf.n.isSome = true ∧ slf.getN = .ok n ∧ slf.getE = .ok e ∧
        prims.rsaVerify hash n e message signature = true := by
    intro hash h
    obtain ⟨n, hn, h⟩ := bind_eq_ok.mp h
    obtain ⟨e, he, h⟩ := bind_eq_ok.mp h
    have hn : slf.getN = .ok n := mapError_eq_ok.mp hn
    have hsome : slf.n.isSome = true := by
      unfold getN at hn
      rcases hc : component "n" slf.n with e | b
      · rw [hc] at hn
        cases hn
      · exact component_isSome hc
    exact ⟨n, e, hsome, hn, mapError_eq_ok.mp he, (Bool.and_eq_true_iff.mp (Except.ok.inj h)).2⟩
  cases alg with
  | rs256 =>
    obtain ⟨n, e, h⟩ := hrsa h
    exact .inl ⟨_, n, e, rfl, h⟩
  | rs384 =>
    obtain ⟨n, e, h⟩ := hrsa h
    exact .inl ⟨_, n, e, rfl, h⟩
  | rs512 =>
    obtain ⟨n, e, h⟩ := hrsa h
    exact .inl ⟨_, n, e, rfl, h⟩
  | edDSA =>
    obtain ⟨x, hx, -⟩ := bind_eq_ok.mp h
    exact .inr ⟨rfl, component_isSome (mapError_eq_ok.mp hx)⟩

theorem not_both_of_validateSelf (h : slf.validateSelf = .ok ()) (hn : slf.n.isSome = true)
    (hx : slf.x.isSome = true) : False := by
  unfold validateSelf at h
  split at h
  · cases h
  · split at h
    · obtain ⟨_, -, h⟩ := bind_eq_ok.mp h
      obtain ⟨_, -, h⟩ := bind_eq_ok.mp h
      exact failIf_eq_ok.mp h hx
    · obtain ⟨_, -, h⟩ := bind_eq_ok.mp h
      obtain ⟨_, -, h⟩ := bind_eq_ok.mp h
      obtain ⟨_, -, h⟩ := bind_eq_ok.mp h
      obtain ⟨_, hne, -⟩ := bind_eq_ok.mp h
      exact failIf_eq_ok.mp hne (.inl hn)

theorem verifyWith_unique (hd : prims.HashesDistinct) (hself : slf.validateSelf = .ok ())
    {alg' : JwkKeyPairAlg} (h : slf.verifyWith prims message signature alg = .ok true)
    (h' : slf.verifyWith prims message signature alg' = .ok true) : alg = alg' := by
  apply hashOf_inj
  rcases verifyWith_true h with ⟨hash, n, e, hhash, hsome, hn, he, hv⟩ | ⟨hhash, hx⟩ <;>
    rcases verifyWith_true h' with ⟨hash', n', e', hhash', hsome', hn', he', hv'⟩ | ⟨hhash', hx'⟩
  · cases hn.symm.trans hn'
    cases he.symm.trans he'
    rw [hhash, hhash', hd _ _ _ _ _ _ hv hv']
  · exact (not_both_of_validateSelf hself hsome hx').elim
  · exact (not_both_of_validateSelf hself hsome' hx).elim
  · rw [hhash, hhash']

end JWKSPublicKey

namespace DPoPParts

/-! #### The nonce -/

section Nonce

variable {ε α β : Type}

/-- Whatever the stores answer, `p` does not panic. -/
def NoPanic (p : M ε α) : Prop :=
  ∀ w, Outcomes sem p w fun r _ => ∀ msg, r ≠ .error (.panic msg)

theorem noPanic_ret (a : α) : NoPanic (ret a : M ε α) := fun _ => outcomes_ret fun _ h => by cases h

theorem noPanic_bind {p : M ε α} {f : α → M ε β} (hp : NoPanic p) (hf : ∀ a, NoPanic (f a)) :
    NoPanic (p >>= f) := by
  intro w
  refine outcomes_bind (outcomes_mono (hp w) fun r w₁ hr => ?_)
  rcases r with e | a
  · intro msg h
    cases h
    exact hr msg rfl
  · exact hf a w₁

theorem noPanic_attempt {ε' : Type} {p : M ε α} (hp : NoPanic p) :
    NoPanic (attempt p : M ε' (Except ε α)) := by
  intro w
  refine outcomes_tried (outcomes_mono (hp w) fun r w₁ hr => ?_)
  rcases r with (e | msg) | a
  · exact fun _ h => by cases h
  · exact absurd rfl (hr msg)
  · exact fun _ h => by cases h

theorem noPanic_answer (x : Except ErrorResponse α) : NoPanic (answer x) := fun _ =>
  outcomes_answer (fun _ _ _ h => by cases h) fun _ _ _ h => by cases h

theorem noPanic_now : NoPanic (now : M ε Int) := fun _ =>
  outcomes_call fun _ _ _ => outcomes_ret fun _ h => by cases h

theorem noPanic_getRand (n : ℕ) : NoPanic (getRand n : M ε String) := fun _ =>
  outcomes_call fun _ _ _ => outcomes_ret fun _ h => by cases h

theorem noPanic_cachePut (c : CacheName) (k : String) (v : CacheVal) :
    NoPanic (cachePut c k v) := fun _ =>
  outcomes_call fun x w₁ _ => noPanic_answer x w₁

theorem noPanic_cacheGet (c : CacheName) (k : String) (as : CacheVal → Option α) :
    NoPanic (cacheGet c k as) := by
  refine noPanic_bind (fun w => outcomes_call fun x w₁ _ => noPanic_answer x w₁) fun v => ?_
  rcases v with - | v
  · exact noPanic_ret none
  · exact noPanic_bind (fun w => outcomes_okOr (fun _ _ _ h => by cases h) fun _ _ h => by cases h)
      fun a => noPanic_ret (some a)

theorem noPanic_newValue (data : AppState) : NoPanic (DPoPNonce.newValue data) :=
  noPanic_bind noPanic_now fun _ => noPanic_bind (noPanic_getRand 32) fun _ =>
    noPanic_bind (noPanic_cachePut _ _ _) fun _ => noPanic_bind (noPanic_cachePut _ _ _) fun _ =>
      noPanic_ret _

theorem noPanic_getLatest (data : AppState) : NoPanic (DPoPNonce.getLatest data) := by
  refine noPanic_bind (noPanic_cacheGet _ _ _) fun x => ?_
  rcases x with - | slf
  · exact noPanic_newValue data
  · refine noPanic_bind noPanic_now fun ms => ?_
    by_cases hexp : slf.exp < ms - 15000
    · rw [if_pos hexp]
      exact noPanic_newValue data
    · rw [if_neg hexp]
      exact noPanic_ret _

theorem noPanic_latestNonce (data : AppState) : NoPanic (DPoPProof.latestNonce data) := by
  refine noPanic_bind (noPanic_attempt (noPanic_getLatest data)) fun x => ?_
  cases x <;> exact noPanic_ret _

theorem noPanic_validateNonce (data : AppState) (proof : DPoPProof) :
    NoPanic (proof.validateNonce data) := by
  unfold DPoPProof.validateNonce
  have hlatest : NoPanic (do
      let latest ← DPoPProof.latestNonce data
      return some latest) := noPanic_bind (noPanic_latestNonce data) fun _ => noPanic_ret _
  rcases proof.claims.nonce with - | nonce
  · by_cases hforce : data.dpopForceNonce = true
    · rw [if_pos hforce]
      exact hlatest
    · rw [if_neg hforce]
      exact noPanic_ret _
  · refine noPanic_bind (noPanic_bind (noPanic_attempt (noPanic_cacheGet _ _ _)) fun x => ?_)
      fun ok => ?_
    · cases x <;> exact noPanic_ret _
    · cases ok
      · exact hlatest
      · exact noPanic_ret _

/-- With `DPOP_FORCE_NONCE`, a proof without a nonce is sent back. -/
theorem force_of_validateNonce {data : AppState} {proof : DPoPProof} {w w' : World}
    (hx : Exec sem (proof.validateNonce data) w (.ok none) w') (hnonce : proof.claims.nonce = none) :
    data.dpopForceNonce = false := by
  unfold DPoPProof.validateNonce at hx
  rw [hnonce] at hx
  by_contra hforce
  rw [Bool.not_eq_false] at hforce
  simp only [hforce, if_true] at hx
  obtain ⟨latest, w₁, -, hret, -⟩ := exec_bind_ok.mp hx
  cases hret

end Nonce

section Iff

variable {prims : Primitives} {data : AppState} {origin : Option String} {b64 : String}
  {req : HttpRequest}
  {p : DPoPParts}
  {r : Except (Fault ErrorResponse) (Option DPoPParts)}

theorem sound_err {e : ErrorResponse} : Sound prims b64 (.error (.err e)) :=
  ⟨fun _ h => (by cases h), fun _ h => (by cases h)⟩

theorem sound_of_consistent (hreq : req.dpop = some b64)
    (h : ∀ p, tryFromStr prims origin b64 = .ok p → p.Consistent prims data b64) {w w' : World}
    (hx : Exec sem (optValidatedFrom prims data req origin) w r w') : Sound prims b64 r := by
  have hout : Outcomes sem (optValidatedFrom prims data req origin) w fun r _ =>
      Sound prims b64 r := by
    unfold optValidatedFrom
    rw [hreq]
    refine outcomes_bind (outcomes_throwIf (fun _ => ?_) fun _ => sound_err)
    refine outcomes_bind (outcomes_throwIf (fun _ => ?_) fun _ => sound_err)
    refine outcomes_bind (outcomes_answer (fun p hp => ?_) fun _ _ => sound_err)
    refine outcomes_bind (outcomes_unixTimestamp fun ms _ => ?_)
    obtain ⟨-, -, -, -, -, -, -, alg, halg⟩ := tryFromStr_parts hp
    show Outcomes sem (afterValidate data p origin (p.validateAt prims data b64 (ms / 1000))) _ _
    rcases hv : p.validateAt prims data b64 (ms / 1000) with (msg | msg) | _
    · exact outcomes_fail sound_err
    · -- only a signature of a wrong length panics
      obtain ⟨htyp, hself, hpanic⟩ := (validateAt_panics_iff hp halg).mp ⟨msg, hv⟩
      obtain ⟨rfl, hx, hlen⟩ := JWKSPublicKey.verifyWith_panics.mp hpanic
      exact absurd ((h p hp).length htyp hself halg hx) hlen
    · obtain ⟨htyp, ⟨hself, hverify⟩, hhtm, hhtu, -, -⟩ := (validateAt_ok_iff hp halg).mp hv
      refine outcomes_bind fun r w₁ hnonce => ?_
      rcases r with (e | msg) | (- | nonce)
      · exact sound_err
      · exact absurd rfl (noPanic_validateNonce _ _ _ _ _ hnonce msg)
      · refine outcomes_ret ⟨fun _ he => (by cases he), fun p' hp' => ?_⟩
        cases hp'
        have halg' : alg = p.header.alg := (h p hp).alg htyp hself alg halg hverify hhtm hhtu
          fun hnone => force_of_validateNonce hnonce hnone
        rw [← halg']
        exact hverify
      · exact outcomes_fail sound_err
  exact hout r w' hx

/-- A run of the validation up to the nonce, at a time at which nothing else is refused. -/
theorem exec_validated (hreq : req.dpop = some b64) (hascii : b64.toList.all isVisibleAscii = true)
    (h68 : reToken68 b64 = true) (hp : tryFromStr prims origin b64 = .ok p) {w w' : World}
    {ms : Int} (hms : w.clock ≤ ms)
    (hx : Exec sem (afterValidate data p origin (p.validateAt prims data b64 (ms / 1000)))
      { w with clock := ms } r w') :
    Exec sem (optValidatedFrom prims data req origin) w r w' := by
  unfold optValidatedFrom
  rw [hreq]
  refine exec_bind.mpr (.inr ⟨(), w, ?_, exec_bind.mpr (.inr ⟨(), w, ?_, ?_⟩)⟩)
  · exact exec_throwIf_ok.mpr ⟨by simp [hascii], rfl⟩
  · exact exec_throwIf_ok.mpr ⟨by simp [h68], rfl⟩
  refine exec_bind.mpr (.inr ⟨p, w, exec_answer.mpr ⟨hp, rfl⟩, ?_⟩)
  exact exec_bind.mpr (.inr ⟨ms / 1000, _, exec_unixTimestamp.mpr ⟨ms, rfl, hms, rfl⟩, hx⟩)

theorem isVisibleAscii_of_token68 (h : reToken68 b64 = true) :
    b64.toList.all isVisibleAscii = true := by
  have halnum : ∀ c : Char, isAlnum c = true → isVisibleAscii c = true := by
    intro c hc
    simp only [isAlnum, Bool.or_eq_true, Bool.and_eq_true, decide_eq_true_eq, Char.le_def,
      UInt32.le_iff_toNat_le] at hc
    simp only [isVisibleAscii, Bool.or_eq_true, Bool.and_eq_true, decide_eq_true_eq]
    have hnat : c.toNat = c.val.toNat := rfl
    simp only [show 'a'.val.toNat = 97 from rfl, show 'z'.val.toNat = 122 from rfl,
      show 'A'.val.toNat = 65 from rfl, show 'Z'.val.toNat = 90 from rfl,
      show '0'.val.toNat = 48 from rfl, show '9'.val.toNat = 57 from rfl] at hc
    omega
  have hchar : ∀ c : Char, isToken68Char c = true → isVisibleAscii c = true := by
    intro c hc
    rcases Bool.or_eq_true_iff.mp hc with hc | hc
    · exact halnum c hc
    · have hall : ['-', '.', '_', '~', '+', '/'].all isVisibleAscii = true := by decide
      exact List.all_eq_true.mp hall c (List.contains_iff_mem.mp hc)
  obtain ⟨-, hpad⟩ := Bool.and_eq_true_iff.mp h
  rw [← List.takeWhile_append_dropWhile (p := isToken68Char) (l := b64.toList), List.all_append,
    Bool.and_eq_true]
  refine ⟨List.all_eq_true.mpr fun c hc => hchar c (List.mem_takeWhile_imp hc),
    List.all_eq_true.mpr fun c hc => ?_⟩
  rw [beq_iff_eq.mp (List.all_eq_true.mp hpad c hc)]
  decide

/-- A signature of a wrong length is a panic, at any time. -/
theorem exists_panic (hreq : req.dpop = some b64) (h68 : reToken68 b64 = true)
    (hp : tryFromStr prims origin b64 = .ok p) (htyp : p.header.typ = "dpop+jwt")
    (hself : p.header.jwk.validateSelf = .ok ()) (halg : p.header.jwk.alg = some .edDSA)
    (hx : ∃ x, p.header.jwk.getX = .ok x ∧ x.length = 32) (hlen : p.signature.length ≠ 64) :
    ∃ w msg, Exec sem (optValidatedFrom prims data req origin) w (.error (.panic msg)) w := by
  have hpanics : ∃ msg, p.validateAt prims data b64 0 = .error (.panic msg) :=
    (validateAt_panics_iff hp halg).mpr
      ⟨htyp, hself, JWKSPublicKey.verifyWith_panics.mpr ⟨rfl, hx, hlen⟩⟩
  obtain ⟨msg, hpanic⟩ := hpanics
  let w : World := { clock := 0, issued := [], db := fun _ => [], cache := fun _ _ => none }
  refine ⟨w, msg, exec_validated hreq (isVisibleAscii_of_token68 h68) h68 hp (le_refl (0 : Int)) ?_⟩
  show Exec sem (afterValidate data p origin (p.validateAt prims data b64 0)) w _ w
  rw [hpanic]
  exact ⟨rfl, rfl⟩

/-- What verifies with the algorithm of the key is accepted at the time of the proof, when its
nonce, if there is one, is known. -/
theorem exists_accepted (hreq : req.dpop = some b64) (h68 : reToken68 b64 = true)
    (hp : tryFromStr prims origin b64 = .ok p) (htyp : p.header.typ = "dpop+jwt")
    (hself : p.header.jwk.validateSelf = .ok ()) {alg : JwkKeyPairAlg}
    (halg : p.header.jwk.alg = some alg)
    (hverify : p.header.jwk.verifyWith prims (signedText b64) p.signature alg = .ok true)
    (hhtm : p.claims.htm = "POST") (hhtu : p.claims.htu = data.dpopTokenEndpoint)
    (hnonce : p.claims.nonce = none → data.dpopForceNonce = false) :
    ∃ w, Exec sem (optValidatedFrom prims data req origin) w (.ok (some p)) w := by
  let w : World :=
    { clock := 1000 * p.claims.iat, issued := [], db := fun _ => [], cache := fun _ _ => none }
  have hok : p.validateAt prims data b64 (1000 * p.claims.iat / 1000) = .ok () := by
    rw [Int.mul_ediv_cancel_left _ (by decide)]
    exact (validateAt_ok_iff hp halg).mpr ⟨htyp, ⟨hself, hverify⟩, hhtm, hhtu, by omega, le_rfl⟩
  have hvalid : Exec sem ((p.toProof data).validateNonce data) w (.ok none) w := by
    unfold DPoPProof.validateNonce
    have hclaims : (p.toProof data).claims.nonce = p.claims.nonce := rfl
    rcases hn : p.claims.nonce with - | nonce
    · rw [hclaims, hn]
      simp only [hnonce hn]
      exact ⟨rfl, rfl⟩
    · rw [hclaims, hn]
      refine exec_bind_ok.mpr ⟨true, w, exec_bind_ok.mpr ⟨.ok none, w, exec_tried.mpr ?_, rfl, rfl⟩,
        rfl, rfl⟩
      exact exec_cacheGet.mpr (.inl ⟨rfl, .inr ⟨rfl, rfl⟩⟩)
  have hrun : Exec sem (afterValidate data p origin (p.validateAt prims data b64
      (1000 * p.claims.iat / 1000))) w (.ok (some p)) w := by
    rw [hok]
    exact exec_bind_ok.mpr ⟨none, w, hvalid, rfl, rfl⟩
  exact ⟨w, exec_validated hreq (isVisibleAscii_of_token68 h68) h68 hp le_rfl hrun⟩

theorem consistent_of_sound (hd : prims.HashesDistinct) (hreq : req.dpop = some b64)
    (h68 : reToken68 b64 = true)
    (h : ∀ w r w', Exec sem (optValidatedFrom prims data req origin) w r w' → Sound prims b64 r)
    (hp : tryFromStr prims origin b64 = .ok p) : p.Consistent prims data b64 where
  length htyp hself halg hx := by
    by_contra hlen
    obtain ⟨w, msg, hrun⟩ := exists_panic hreq h68 hp htyp hself halg hx hlen
    exact (h w _ w hrun).noPanic msg rfl
  alg htyp hself alg halg hverify hhtm hhtu hnonce := by
    obtain ⟨w, hrun⟩ := exists_accepted hreq h68 hp htyp hself halg hverify hhtm hhtu hnonce
    exact JWKSPublicKey.verifyWith_unique hd hself hverify ((h w _ w hrun).verified p rfl)

/-- **DPoP headers.**  Whatever the state, the validation of a header in the format `Token68`
does not panic, and accepts only proofs with a signature for the algorithm of their header, if and
only if the proof that the header encodes is consistent. -/
theorem dpop_validated_iff (hd : prims.HashesDistinct) (hreq : req.dpop = some b64)
    (h68 : reToken68 b64 = true) :
    (∀ w r w', Exec sem (optValidatedFrom prims data req origin) w r w' → Sound prims b64 r) ↔
      ∀ p, tryFromStr prims origin b64 = .ok p → p.Consistent prims data b64 :=
  ⟨fun h _ hp => consistent_of_sound hd hreq h68 h hp, fun h _ _ _ hx =>
    sound_of_consistent hreq h hx⟩

end Iff

/-! ### Proofs that are composed of their parts -/

section Compose

variable {prims : Primitives} {header : DPoPHeader} {claims : DPoPClaims} {origin : Option String}

def encodePart (bytes : Bytes) : String :=
  String.ofList (Base64.encode Base64.urlSafe false bytes)

/-- A proof for the texts of its header and its claims. -/
def compose (header claims : String) (signature : Bytes) : String :=
  encodePart (Text.asBytes header) ++ "." ++
    (encodePart (Text.asBytes claims) ++ "." ++ encodePart signature)

theorem base64UrlNoPadDecode_encodePart (bytes : Bytes) :
    base64UrlNoPadDecode (encodePart bytes) = .ok bytes := by
  unfold base64UrlNoPadDecode encodePart
  rw [String.toList_ofList, Base64.decode_encode]

theorem textOf_encodePart (s : String) : textOf prims (encodePart (Text.asBytes s)) = .ok s := by
  have hbytes : (Text.asBytes s).toByteArray = s.toByteArray := String.utf8Encode_toList
  refine bind_eq_ok.mpr ⟨_, base64UrlNoPadDecode_encodePart _, ?_⟩
  rw [hbytes, String.fromUTF8?, dif_pos s.isValidUTF8]
  rfl

theorem splitOnce_encodePart (bytes : Bytes) (rest : String) :
    Text.splitOnce (encodePart bytes ++ "." ++ rest) "." = some (encodePart bytes, rest) := by
  have hdot : '.' ∉ (encodePart bytes).toList := by
    intro h
    rw [encodePart, String.toList_ofList] at h
    exact absurd (Base64.mem_encode h) (by decide)
  have hlist : (encodePart bytes ++ "." ++ rest).toList =
      (encodePart bytes).toList ++ '.' :: rest.toList := by
    simp
  have hsep : ".".toList = ['.'] := by decide
  rw [Text.splitOnce, hlist, hsep, Text.splitOnceList_char hdot, Option.map_some,
    String.ofList_toList, String.ofList_toList]

/-- **A proof is decoded to its parts.** -/
theorem tryFromStr_compose {h c : String} (hheader : prims.headerFromJson h = .ok header)
    (hclaims : prims.claimsFromJson c = .ok claims) (signature : Bytes) :
    tryFromStr prims origin (compose h c signature) =
      .ok { header := header.withAlg, claims, signature } := by
  unfold tryFromStr compose
  rw [splitOnce_encodePart]
  simp only [textOf_encodePart, splitOnce_encodePart, base64UrlNoPadDecode_encodePart]
  refine bind_eq_ok.mpr ⟨h, rfl, bind_eq_ok.mpr ⟨header, mapError_eq_ok.mpr hheader, ?_⟩⟩
  exact bind_eq_ok.mpr ⟨c, rfl, bind_eq_ok.mpr ⟨claims, mapError_eq_ok.mpr hclaims, rfl⟩⟩

theorem reToken68_compose (h c : String) (signature : Bytes) :
    reToken68 (compose h c signature) = true := by
  have hpart : ∀ bytes, ∀ x ∈ (encodePart bytes).toList, isToken68Char x = true := by
    intro bytes x hx
    rw [encodePart, String.toList_ofList] at hx
    have hall : Base64.urlSafe.symbols.all isToken68Char = true := by decide +kernel
    exact List.all_eq_true.mp hall x (Base64.mem_encode hx)
  have hall : ∀ x ∈ (compose h c signature).toList, isToken68Char x = true := by
    intro x hx
    have hdot : ".".toList = ['.'] := by decide
    simp only [compose, String.toList_append, List.mem_append, hdot, List.mem_singleton] at hx
    rcases hx with (hx | rfl) | (hx | rfl) | hx
    · exact hpart _ x hx
    · decide
    · exact hpart _ x hx
    · decide
    · exact hpart _ x hx
  have hne : (compose h c signature).toList ≠ [] := by
    simp [compose]
  unfold reToken68
  rw [List.takeWhile_eq_self_iff.mpr hall, List.dropWhile_eq_nil_iff.mpr hall]
  simp [hne]

end Compose

/-! ### Three proofs -/

def okpHeader : DPoPHeader where
  typ := "dpop+jwt"
  alg := .edDSA
  jwk :=
    { kty := .okp, alg := none, crv := some "Ed25519", kid := none, n := none, e := none
      x := some "AAAAAAAAAAAAAAAAAAAAAAAAAAAAAAAAAAAAAAAAAAA" }
  kid := none

def okpText : String :=
  "\x7b\"typ\":\"dpop+jwt\",\"alg\":\"EdDSA\",\"jwk\":\x7b\"kty\":\"OKP\",\"crv\":\"Ed25519\"," ++
    "\"x\":\"AAAAAAAAAAAAAAAAAAAAAAAAAAAAAAAAAAAAAAAAAAA\"\x7d\x7d"

/-- The key names another algorithm than the header. -/
def rsaHeader : DPoPHeader where
  typ := "dpop+jwt"
  alg := .rs512
  jwk :=
    { kty := .rsa, alg := some .rs256, crv := none, kid := none, n := some "Dw", e := some "Aw"
      x := none }
  kid := none

def rsaText : String :=
  "\x7b\"typ\":\"dpop+jwt\",\"alg\":\"RS512\",\"jwk\":\x7b\"kty\":\"RSA\",\"alg\":\"RS256\"," ++
    "\"n\":\"Dw\",\"e\":\"Aw\"\x7d\x7d"

def sampleClaims : DPoPClaims where
  jti := "1"
  htm := "POST"
  htu := "https://localhost/auth/v1/oidc/token"
  iat := 0
  nonce := none

def claimsText : String :=
  "\x7b\"jti\":\"1\",\"htm\":\"POST\",\"htu\":\"https://localhost/auth/v1/oidc/token\"," ++
    "\"iat\":0\x7d"

/-- Libraries that know these texts, with one signature for each kind of key. -/
def samplePrims : Primitives where
  rsaPublicKey n e := e < n
  rsaVerify hash _ _ _ signature := hash = .sha256 ∧ signature = [7]
  ed25519Verify _ _ signature := signature.bytes = List.replicate 64 7
  headerFromJson s :=
    if s = okpText then .ok okpHeader else if s = rsaText then .ok rsaHeader
    else .error "unknown header"
  claimsFromJson s := if s = claimsText then .ok sampleClaims else .error "unknown claims"
  utf8Error _ := "invalid utf-8 sequence"

theorem hashesDistinct_samplePrims : samplePrims.HashesDistinct := by
  intro h h' n e message signature hv hv'
  exact (of_decide_eq_true hv).1.trans (of_decide_eq_true hv').1.symm

theorem headerFromJson_okp : samplePrims.headerFromJson okpText = .ok okpHeader := by
  simp [samplePrims]

theorem headerFromJson_rsa : samplePrims.headerFromJson rsaText = .ok rsaHeader := by
  have hne : rsaText ≠ okpText := by decide +kernel
  simp [samplePrims, hne]

theorem claimsFromJson_sample : samplePrims.claimsFromJson claimsText = .ok sampleClaims := by
  simp [samplePrims]

def proofReq (b64 : String) : HttpRequest := { (default : HttpRequest) with dpop := some b64 }

/-- With a signature of 64 bytes, everything is as it should be. -/
theorem dpop_validated_okp :
    reToken68 (compose okpText claimsText (List.replicate 64 7)) = true ∧ ∀ w r w',
      Exec sem (optValidatedFrom samplePrims sampleState
        (proofReq (compose okpText claimsText (List.replicate 64 7))) none) w r w' →
      Sound samplePrims (compose okpText claimsText (List.replicate 64 7)) r := by
  refine ⟨reToken68_compose _ _ _, (dpop_validated_iff hashesDistinct_samplePrims rfl
    (reToken68_compose _ _ _)).mpr fun p hp => ?_⟩
  rw [tryFromStr_compose headerFromJson_okp claimsFromJson_sample] at hp
  cases hp
  refine ⟨fun _ _ _ _ => rfl, fun _ _ alg halg _ _ _ _ => ?_⟩
  cases halg
  rfl

theorem proofReq_dpop (b64 : String) : (proofReq b64).dpop = some b64 := rfl

/-- The proof for a point of 32 bytes, without a signature. -/
def okpProof : DPoPParts := { header := okpHeader.withAlg, claims := sampleClaims, signature := [] }

def okpToken : String := compose okpText claimsText []

def rsaProof : DPoPParts := { header := rsaHeader.withAlg, claims := sampleClaims, signature := [7] }

def rsaToken : String := compose rsaText claimsText [7]

theorem panics_okp : ∃ w msg, Exec sem (optValidatedFrom samplePrims sampleState
    (proofReq okpToken) none) w (.error (.panic msg)) w := by
  have hokp : tryFromStr samplePrims none okpToken = .ok okpProof :=
    tryFromStr_compose headerFromJson_okp claimsFromJson_sample []
  exact exists_panic (proofReq_dpop _) (reToken68_compose _ _ _) hokp rfl (by decide) rfl
    ⟨List.replicate 32 0, by decide +kernel, rfl⟩ (by decide)

theorem accepted_rsa : ∃ w, Exec sem (optValidatedFrom samplePrims sampleState
    (proofReq rsaToken) none) w (.ok (some rsaProof)) w := by
  have hrsa : tryFromStr samplePrims none rsaToken = .ok rsaProof :=
    tryFromStr_compose headerFromJson_rsa claimsFromJson_sample [7]
  exact exists_accepted (proofReq_dpop _) (reToken68_compose _ _ _) hrsa rfl (by decide) rfl
    (by rfl) rfl rfl fun _ => rfl

/-- A proof without a signature for a point of 32 bytes panics; one for a key that names another
algorithm than its header is accepted by the algorithm of the key. -/
theorem dpop_misvalidated :
    (reToken68 okpToken = true ∧ ∃ w msg, Exec sem (optValidatedFrom samplePrims sampleState
      (proofReq okpToken) none) w (.error (.panic msg)) w) ∧
    reToken68 rsaToken = true ∧ (∃ w, Exec sem (optValidatedFrom samplePrims sampleState
      (proofReq rsaToken) none) w (.ok (some rsaProof)) w) ∧
    rsaProof.header.jwk.verifyWith samplePrims (signedText rsaToken) rsaProof.signature
      rsaProof.header.alg = .ok false :=
  ⟨⟨reToken68_compose _ _ _, panics_okp⟩, reToken68_compose _ _ _, accepted_rsa, rfl⟩

end DPoPParts

end Rauthy
