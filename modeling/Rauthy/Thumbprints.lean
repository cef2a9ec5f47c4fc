/-
Rauthy/Thumbprints.lean

`JWKSPublicKey::fingerprint` (`rauthy-models/src/entity/jwk.rs`): the thumbprint of a key, to
which a client's tokens are bound.  It is the hash of a JSON text that is put together from the
components as the client has sent them, without any escaping.

Main result: `thumbprint_binds`.  Accepted keys with the same text are the same key, since a
component in base64 cannot end the string that it stands in.
-/
import Rauthy.DPoP
import Rauthy.DynamicClients
import Rauthy.LinkCookie

namespace Rauthy

/-! ### The text that is hashed -/

/-- Letters, digits, `-` and `_`, and the padding. -/
def IsBase64Url (s : String) : Prop := ∀ c ∈ s.toList, c ∈ Base64.urlSafe.symbols ∨ c = Base64.pad

theorem IsBase64Url.of_all {s : String}
    (h : (s.toList.all fun c => decide (c ∈ Base64.urlSafe.symbols ∨ c = Base64.pad)) = true) :
    IsBase64Url s :=
  fun c hc => of_decide_eq_true (List.all_eq_true.mp h c hc)

theorem IsBase64Url.noQuote {s : String} (h : IsBase64Url s) : '"' ∉ s.toList := by
  intro hquote
  rcases h '"' hquote with h | h
  · revert h
    decide
  · revert h
    decide

namespace JWKSPublicKey

variable {k : JWKSPublicKey} {n e x : String}

/-- The mandatory members of an RSA key in their order. -/
def rsaText (e n : String) : String :=
  "\x7b\"e\":\"" ++ e ++ "\",\"kty\":\"RSA\",\"n\":\"" ++ n ++ "\"\x7d"

/-- The mandatory members of an OKP key in their order. -/
def okpText (crv x : String) : String :=
  "\x7b\"crv\":\"" ++ crv ++ "\",\"kty\":\"OKP\",\"x\":\"" ++ x ++ "\"\x7d"

/-- The text of which `fingerprint` takes the hash. -/
def thumbprint (slf : JWKSPublicKey) : Except ErrorResponse String :=
  match slf.kty with
  | .rsa =>
      match slf.e, slf.n with
      | some e, some n => .ok (rsaText e n)
      | _, _ => .error ⟨.internal, "Incorrect format for RSA JWK: e / n missing"⟩
  | .okp =>
      match slf.crv, slf.x with
      | some crv, some x => .ok (okpText crv x)
      | _, _ => .error ⟨.internal, "Incorrect format for OKP JWK: crv / x missing"⟩

theorem fingerprint_eq (data : AppState) (slf : JWKSPublicKey) :
    slf.fingerprint data =
      slf.thumbprint.map fun s => base64UrlEncode data (data.sha256 (Text.asBytes s)) := by
  unfold fingerprint thumbprint
  rcases slf.kty with - | -
  · rcases slf.e with - | e <;> rcases slf.n with - | n <;> rfl
  · rcases slf.crv with - | crv <;> rcases slf.x with - | x <;> rfl

/-- The components are strings of base64url. -/
def InBase64Url (slf : JWKSPublicKey) : Prop :=
  ∀ s, slf.n = some s ∨ slf.e = some s ∨ slf.x = some s → IsBase64Url s

/-- The type and the components are the same. -/
structure SameKey (k k' : JWKSPublicKey) : Prop where
  kty : k.kty = k'.kty
  n : k.n = k'.n
  e : k.e = k'.e
  x : k.x = k'.x

/-! ### Accepted keys -/

/-- **What is accepted**: a key of one of the two types, with the components of this type. -/
theorem validateSelf_cases (h : k.validateSelf = .ok ()) :
    (∃ n e, k.kty = .rsa ∧ k.n = some n ∧ k.e = some e ∧ k.x = none) ∨
      ∃ x, k.kty = .okp ∧ k.crv = some "Ed25519" ∧ k.n = none ∧ k.e = none ∧ k.x = some x := by
  unfold validateSelf at h
  split at h
  · cases h
  · split at h
    · next hkty =>
        obtain ⟨_, -, h₁⟩ := bind_eq_ok.mp h
        obtain ⟨_, hcomponents, h₂⟩ := bind_eq_ok.mp h₁
        have hcomponents := failIf_eq_ok.mp hcomponents
        have hx := failIf_eq_ok.mp h₂
        rw [not_or, Option.isNone_iff_eq_none, Option.isNone_iff_eq_none] at hcomponents
        obtain ⟨n, hn⟩ := Option.ne_none_iff_exists'.mp hcomponents.1
        obtain ⟨e, he⟩ := Option.ne_none_iff_exists'.mp hcomponents.2
        exact .inl ⟨n, e, hkty, hn, he, by simpa using hx⟩
    · next hkty =>
        obtain ⟨_, -, h₁⟩ := bind_eq_ok.mp h
        obtain ⟨_, -, h₂⟩ := bind_eq_ok.mp h₁
        obtain ⟨_, hcrv, h₃⟩ := bind_eq_ok.mp h₂
        obtain ⟨_, hrsa, h₄⟩ := bind_eq_ok.mp h₃
        have hcrv := failIf_eq_ok.mp hcrv
        have hrsa := failIf_eq_ok.mp hrsa
        have hx := failIf_eq_ok.mp h₄
        rw [Option.isNone_iff_eq_none] at hx
        obtain ⟨x, hx⟩ := Option.ne_none_iff_exists'.mp hx
        refine .inr ⟨x, hkty, Decidable.not_not.mp hcrv, ?_, ?_, hx⟩
        · by_contra hn
          exact hrsa (.inl (Option.isSome_iff_ne_none.mpr hn))
        · by_contra he
          exact hrsa (.inr (Option.isSome_iff_ne_none.mpr he))

theorem thumbprint_rsa (hkty : k.kty = .rsa) (hn : k.n = some n) (he : k.e = some e) :
    k.thumbprint = .ok (rsaText e n) := by
  rw [thumbprint, hkty, hn, he]

theorem thumbprint_okp (hkty : k.kty = .okp) (hcrv : k.crv = some "Ed25519") (hx : k.x = some x) :
    k.thumbprint = .ok (okpText "Ed25519" x) := by
  rw [thumbprint, hkty, hcrv, hx]

theorem rsaText_inj {e' n' : String} (he : '"' ∉ e.toList) (he' : '"' ∉ e'.toList)
    (h : rsaText e n = rsaText e' n') : e = e' ∧ n = n' := by
  have hlist := congrArg String.toList h
  simp only [rsaText, String.toList_append, List.append_assoc] at hlist
  have hrest := List.append_cancel_left hlist
  -- what follows the exponent starts with the quote
  have hsplit := congrArg (Text.splitOnceList ['"']) hrest
  have hquote : "\",\"kty\":\"RSA\",\"n\":\"".toList =
      '"' :: ",\"kty\":\"RSA\",\"n\":\"".toList := rfl
  rw [hquote, List.cons_append, List.cons_append, Text.splitOnceList_char he,
    Text.splitOnceList_char he'] at hsplit
  obtain ⟨hfirst, hsecond⟩ := Prod.mk.inj (Option.some.inj hsplit)
  have hlast := List.append_cancel_right (List.append_cancel_left hsecond)
  exact ⟨String.toList_inj.mp hfirst, String.toList_inj.mp hlast⟩

theorem okpText_inj {crv x' : String} (h : okpText crv x = okpText crv x') : x = x' := by
  rw [okpText, okpText] at h
  exact (String.append_right_inj _).mp ((String.append_left_inj _).mp h)

/-- A text for one type is none for the other: they differ in the third character. -/
theorem rsaText_ne_okpText {crv : String} : rsaText e n ≠ okpText crv x := by
  intro h
  have hlist := congrArg String.toList h
  simp only [rsaText, okpText, String.toList_append, List.append_assoc] at hlist
  have hthird := congrArg (fun l : List Char => l[2]?) hlist
  simp at hthird

/-- The text does not show more than the type and the components of an accepted key. -/
theorem thumbprint_congr {k' : JWKSPublicKey} (hk : k.validateSelf = .ok ())
    (hk' : k'.validateSelf = .ok ()) (h : k.SameKey k') : k.thumbprint = k'.thumbprint := by
  rcases validateSelf_cases hk with ⟨n, e, hkty, hn, he, -⟩ | ⟨x, hkty, hcrv, -, -, hx⟩
  · rw [thumbprint_rsa hkty hn he,
      thumbprint_rsa (h.kty ▸ hkty) (h.n ▸ hn) (h.e ▸ he)]
  · rcases validateSelf_cases hk' with ⟨n', e', hkty', -⟩ | ⟨x', hkty', hcrv', -, -, hx'⟩
    · cases hkty.symm.trans (h.kty.trans hkty')
    · rw [thumbprint_okp hkty hcrv hx, thumbprint_okp hkty' hcrv' (h.x ▸ hx)]

/-- **The text determines the key**, also across the two types. -/
theorem sameKey_of_thumbprint {k' : JWKSPublicKey} (hk : k.validateSelf = .ok ())
    (hk' : k'.validateSelf = .ok ()) (hb : k.InBase64Url) (hb' : k'.InBase64Url)
    (h : k.thumbprint = k'.thumbprint) : k.SameKey k' := by
  rcases validateSelf_cases hk with ⟨n, e, hkty, hn, he, hx⟩ | ⟨x, hkty, hcrv, hn, he, hx⟩ <;>
    rcases validateSelf_cases hk' with
      ⟨n', e', hkty', hn', he', hx'⟩ | ⟨x', hkty', hcrv', hn', he', hx'⟩
  · rw [thumbprint_rsa hkty hn he, thumbprint_rsa hkty' hn' he'] at h
    obtain ⟨rfl, rfl⟩ := rsaText_inj (hb e (.inr (.inl he))).noQuote
      (hb' e' (.inr (.inl he'))).noQuote (Except.ok.inj h)
    exact ⟨hkty.trans hkty'.symm, hn.trans hn'.symm, he.trans he'.symm, hx.trans hx'.symm⟩
  · rw [thumbprint_rsa hkty hn he, thumbprint_okp hkty' hcrv' hx'] at h
    exact absurd (Except.ok.inj h) rsaText_ne_okpText
  · rw [thumbprint_okp hkty hcrv hx, thumbprint_rsa hkty' hn' he'] at h
    exact absurd (Except.ok.inj h).symm rsaText_ne_okpText
  · rw [thumbprint_okp hkty hcrv hx, thumbprint_okp hkty' hcrv' hx'] at h
    obtain rfl := okpText_inj (Except.ok.inj h)
    exact ⟨hkty.trans hkty'.symm, hn.trans hn'.symm, he.trans he'.symm, hx.trans hx'.symm⟩

theorem exists_thumbprint (hk : k.validateSelf = .ok ()) :
    ∃ s, k.thumbprint = .ok s := by
  rcases validateSelf_cases hk with ⟨n, e, hkty, hn, he, -⟩ | ⟨x, hkty, hcrv, -, -, hx⟩
  · exact ⟨_, thumbprint_rsa hkty hn he⟩
  · exact ⟨_, thumbprint_okp hkty hcrv hx⟩

end JWKSPublicKey

/-- `base64_url_encode` over the standard alphabet can be read back. -/
theorem base64UrlEncode_inj {data : AppState}
    (h : ∀ b, data.base64Encode b = String.ofList (Base64.encode Base64.standard true b))
    {b b' : Bytes} (heq : base64UrlEncode data b = base64UrlEncode data b') : b = b' := by
  rw [base64UrlEncode_standard h, base64UrlEncode_standard h] at heq
  have hread := congrArg (Base64.decode Base64.urlSafe false) (String.ofList_injective heq)
  rw [Base64.decode_encode, Base64.decode_encode] at hread
  exact Option.some.inj hread

open JWKSPublicKey in
/-- **A thumbprint binds to one key**: the texts of two accepted keys are the same exactly for the
same key, and so are the fingerprints, unless the two texts collide. -/
theorem thumbprint_binds (data : AppState)
    (hbase64 : ∀ b, data.base64Encode b = String.ofList (Base64.encode Base64.standard true b))
    {k k' : JWKSPublicKey} (hk : k.validateSelf = .ok ()) (hk' : k'.validateSelf = .ok ())
    (hb : k.InBase64Url) (hb' : k'.InBase64Url) :
    (k.thumbprint = k'.thumbprint ↔ k.SameKey k') ∧
      (k.SameKey k' → k.fingerprint data = k'.fingerprint data) ∧
      ((∀ s s', k.thumbprint = .ok s → k'.thumbprint = .ok s' →
          data.sha256 (Text.asBytes s) = data.sha256 (Text.asBytes s') →
          Text.asBytes s = Text.asBytes s') →
        k.fingerprint data = k'.fingerprint data → k.SameKey k') := by
  refine ⟨⟨sameKey_of_thumbprint hk hk' hb hb', thumbprint_congr hk hk'⟩, fun h => ?_,
    fun hsha h => ?_⟩
  · rw [fingerprint_eq, fingerprint_eq, thumbprint_congr hk hk' h]
  · obtain ⟨s, hs⟩ := exists_thumbprint hk
    obtain ⟨s', hs'⟩ := exists_thumbprint hk'
    rw [fingerprint_eq, fingerprint_eq, hs, hs'] at h
    have hhash := base64UrlEncode_inj hbase64 (Except.ok.inj h)
    have htext : s = s' := Text.asBytes_inj (hsha s s' hs hs' hhash)
    exact sameKey_of_thumbprint hk hk' hb hb' (by rw [hs, hs', htext])

/-- A key as a client may send it. -/
def rsaKey (alg : JwkKeyPairAlg) (kid : Option String) : JWKSPublicKey where
  kty := .rsa
  alg := some alg
  crv := none
  kid := kid
  n := some "0vx7agoebGcQSuuPiLJXZpt"
  e := some "AQAB"
  x := none

theorem rsaKey_inBase64Url (alg : JwkKeyPairAlg) (kid : Option String) :
    (rsaKey alg kid).InBase64Url := by
  rintro s (h | h | h)
  · obtain rfl := Option.some.inj h
    exact .of_all (by decide +kernel)
  · obtain rfl := Option.some.inj h
    exact .of_all (by decide +kernel)
  · cases h

/-- The configuration with the base 64 of the library. -/
def base64State : AppState :=
  { sampleState with base64Encode := fun b => String.ofList (Base64.encode Base64.standard true b) }

/-- The algorithm and the id of the key do not show in the fingerprint. -/
theorem thumbprint_binds_rsa :
    (rsaKey .rs256 none).fingerprint base64State =
      (rsaKey .rs512 (some "k2")).fingerprint base64State :=
  (thumbprint_binds base64State (fun _ => rfl) rfl rfl (rsaKey_inBase64Url .rs256 none)
    (rsaKey_inBase64Url .rs512 (some "k2"))).2.1 ⟨rfl, rfl, rfl, rfl⟩

end Rauthy
