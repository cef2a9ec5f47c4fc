/-
Rauthy/LinkCookie.lean

The cookie that names the account and the provider of a link (`AuthProviderLinkCookie` in
`auth_providers.rs`): its fields in bincode, encrypted, in base 64 for URLs.

`base64_url_encode` in `rauthy-common/src/utils.rs` drops the padding and `base64_url_decode`
wants it, so a value is read back only if its length is a multiple of three.

Main result: `link_cookie_kept`, the cookies that are read back, by the lengths of their fields.
-/
import Rauthy.Federation
import Rauthy.Lib.Base64
import Rauthy.Lib.Bincode

namespace Rauthy

open Bincode

/-! ### The cookie -/

/-- `base64_url_decode` -/
def base64UrlDecode (b64 : String) : Except ErrorResponse Bytes :=
  match Base64.decode Base64.urlSafe true b64.toList with
  | some b => .ok b
  | none => .error ⟨.badRequest, "B64 decoding error"⟩

namespace AuthProviderLinkCookie

/-- `bincode::serialize` -/
def serialize (c : AuthProviderLinkCookie) : Bytes :=
  encStr c.providerId ++ (encStr c.userId ++ encStr c.userEmail)

def decFields : Dec AuthProviderLinkCookie := fun b => do
  let (providerId, r) ← decStr b
  let (userId, r) ← decStr r
  let (userEmail, r) ← decStr r
  return ({ providerId, userId, userEmail }, r)

/-- `bincode::deserialize` -/
def deserialize (b : Bytes) : Except ErrorResponse AuthProviderLinkCookie :=
  match decFields b with
  | some (c, _) => .ok c
  | none => .error ⟨.internal, "Serialization Error"⟩

/-- `build_cookie` -/
def buildCookie (data : AppState) (c : AuthProviderLinkCookie) : Except ErrorResponse Cookie := do
  let secretEnc ← data.encrypt c.serialize
  return { name := "rauthy-provider-link", value := base64UrlEncode data secretEnc,
           httpOnly := true, secure := true, path := "/auth", maxAge := 300 }

/-- `AuthProviderLinkCookie::try_from` -/
def tryFrom (data : AppState) (value : Cookie) : Except ErrorResponse AuthProviderLinkCookie := do
  let bytesEnc ← base64UrlDecode value.value
  let dec ← data.decrypt bytesEnc
  deserialize dec

/-- The number of bytes of the fields, with the length of each in eight bytes. -/
def size (c : AuthProviderLinkCookie) : ℕ :=
  (8 + (Text.asBytes c.providerId).length) + ((8 + (Text.asBytes c.userId).length) +
    (8 + (Text.asBytes c.userEmail).length))

/-- The lengths of the fields are numbers of 64 bits. -/
structure Addressable (c : AuthProviderLinkCookie) : Prop where
  providerId : (Text.asBytes c.providerId).length < 256 ^ 8
  userId : (Text.asBytes c.userId).length < 256 ^ 8
  userEmail : (Text.asBytes c.userEmail).length < 256 ^ 8

/-- The cookie is built, and read back. -/
def Kept (data : AppState) (c : AuthProviderLinkCookie) : Prop :=
  ∃ cookie, c.buildCookie data = .ok cookie ∧ tryFrom data cookie = .ok c

end AuthProviderLinkCookie

/-- What is assumed of the libraries: the standard base 64, and an encryption that succeeds, is
inverted by the decryption and makes a text longer by the same number of bytes each time. -/
structure Sealing (data : AppState) (overhead : ℕ) : Prop where
  base64 : ∀ b, data.base64Encode b = String.ofList (Base64.encode Base64.standard true b)
  encrypt : ∀ b, ∃ e, data.encrypt b = .ok e ∧ data.decrypt e = .ok b ∧
    e.length = b.length + overhead

section Sealed

variable {data : AppState} {overhead : ℕ} {c : AuthProviderLinkCookie}

/-- The characters that `base64_url_encode` maps. -/
theorem base64UrlEncode_standard
    (h : ∀ b, data.base64Encode b = String.ofList (Base64.encode Base64.standard true b)) (b : Bytes) :
    base64UrlEncode data b = String.ofList (Base64.encode Base64.urlSafe false b) := by
  unfold base64UrlEncode
  rw [h, String.toList_ofList]
  refine congrArg String.ofList (Base64.filterMap_encode rfl ?_ b)
  decide +kernel

theorem base64UrlEncode_eq (h : Sealing data overhead) (b : Bytes) :
    base64UrlEncode data b = String.ofList (Base64.encode Base64.urlSafe false b) :=
  base64UrlEncode_standard h.base64 b

theorem base64UrlDecode_encode (h : Sealing data overhead) (b : Bytes) :
    base64UrlDecode (base64UrlEncode data b) =
      if 3 ∣ b.length then .ok b else .error ⟨.badRequest, "B64 decoding error"⟩ := by
  unfold base64UrlDecode
  rw [base64UrlEncode_eq h, String.toList_ofList, Base64.decode_encode_noPad]
  by_cases hlen : 3 ∣ b.length
  · rw [if_pos hlen, if_pos hlen]
  · rw [if_neg hlen, if_neg hlen]

namespace AuthProviderLinkCookie

theorem length_serialize : c.serialize.length = c.size := by
  have hlen : ∀ s, (encStr s).length = 8 + (Text.asBytes s).length := by
    intro s
    rw [encStr, List.length_append, length_leBytes]
  rw [serialize, List.length_append, List.length_append, hlen, hlen, hlen, size]

theorem deserialize_serialize (hc : c.Addressable) : deserialize c.serialize = .ok c := by
  have hlast : decStr (encStr c.userEmail) = some (c.userEmail, []) := by
    have h := decStr_encStr hc.userEmail []
    rw [List.append_nil] at h
    exact h
  have hdec : decFields c.serialize = some (c, []) := by
    unfold decFields serialize
    rw [decStr_encStr hc.providerId]
    simp only [Option.bind_eq_bind, Option.bind_some]
    rw [decStr_encStr hc.userId]
    simp only [Option.bind_some]
    rw [hlast]
    rfl
  unfold deserialize
  rw [hdec]

theorem buildCookie_eq {e : Bytes} (he : data.encrypt c.serialize = .ok e) :
    c.buildCookie data = .ok
      { name := "rauthy-provider-link", value := base64UrlEncode data e,
        httpOnly := true, secure := true, path := "/auth", maxAge := 300 } := by
  unfold buildCookie
  rw [he]
  rfl

theorem tryFrom_eq {cookie : Cookie} {e b : Bytes} (he : base64UrlDecode cookie.value = .ok e)
    (hb : data.decrypt e = .ok b) : tryFrom data cookie = deserialize b := by
  unfold tryFrom
  rw [he]
  show (data.decrypt e >>= deserialize) = _
  rw [hb]
  rfl

theorem tryFrom_malformed {cookie : Cookie} {e : ErrorResponse}
    (he : base64UrlDecode cookie.value = .error e) : tryFrom data cookie = .error e := by
  unfold tryFrom
  rw [he]
  rfl

theorem tryFrom_buildCookie (h : Sealing data overhead) (hc : c.Addressable) :
    ∃ cookie, c.buildCookie data = .ok cookie ∧ tryFrom data cookie =
      if 3 ∣ c.size + overhead then .ok c else .error ⟨.badRequest, "B64 decoding error"⟩ := by
  obtain ⟨e, hencrypt, hdecrypt, hlen⟩ := h.encrypt c.serialize
  rw [length_serialize] at hlen
  obtain ⟨cookie, hbuild, hvalue⟩ : ∃ cookie, c.buildCookie data = .ok cookie ∧
      cookie.value = base64UrlEncode data e := ⟨_, buildCookie_eq hencrypt, rfl⟩
  have hdecode := base64UrlDecode_encode h e
  rw [← hvalue, hlen] at hdecode
  refine ⟨cookie, hbuild, ?_⟩
  by_cases hdiv : 3 ∣ c.size + overhead
  · rw [if_pos hdiv] at hdecode ⊢
    rw [tryFrom_eq hdecode hdecrypt]
    exact deserialize_serialize hc
  · rw [if_neg hdiv] at hdecode ⊢
    exact tryFrom_malformed hdecode

theorem kept_iff (h : Sealing data overhead) (hc : c.Addressable) :
    c.Kept data ↔ 3 ∣ c.size + overhead := by
  obtain ⟨cookie, hbuild, hread⟩ := tryFrom_buildCookie h hc
  constructor
  · rintro ⟨cookie', hbuild', hread'⟩
    rw [hbuild] at hbuild'
    cases hbuild'
    rw [hread] at hread'
    by_contra hdiv
    rw [if_neg hdiv] at hread'
    cases hread'
  · intro hdiv
    rw [if_pos hdiv] at hread
    exact ⟨cookie, hbuild, hread⟩

end AuthProviderLinkCookie

/-- **The cookie of a link** is read back exactly if the number of its encrypted bytes is a
multiple of three, as is every list of bytes that is encoded for a URL. -/
theorem link_cookie_kept (h : Sealing data overhead) :
    (∀ c : AuthProviderLinkCookie, c.Addressable → (c.Kept data ↔ 3 ∣ c.size + overhead)) ∧
    ∀ b, base64UrlDecode (base64UrlEncode data b) = .ok b ↔ 3 ∣ b.length := by
  refine ⟨fun c hc => AuthProviderLinkCookie.kept_iff h hc, fun b => ?_⟩
  rw [base64UrlDecode_encode h]
  constructor
  · intro hb
    by_contra hdiv
    rw [if_neg hdiv] at hb
    cases hb
  · intro hdiv
    rw [if_pos hdiv]

end Sealed

/-! ### A cookie that is lost -/

/-- An encryption that puts 36 bytes in front of a text. -/
def sealingState : AppState :=
  { sampleState with
    base64Encode := fun b => String.ofList (Base64.encode Base64.standard true b)
    encrypt := fun b => .ok (List.replicate 36 0 ++ b)
    decrypt := fun b => .ok (b.drop 36) }

theorem sealing_sealingState : Sealing sealingState 36 where
  base64 _ := rfl
  encrypt b := by
    refine ⟨List.replicate 36 0 ++ b, rfl, ?_, ?_⟩
    · show Except.ok ((List.replicate 36 0 ++ b).drop 36) = Except.ok b
      rw [List.drop_left' (List.length_replicate)]
    · rw [List.length_append, List.length_replicate, Nat.add_comm]

theorem link_cookie_kept_bob :
    (⟨"provider", "bob", "bob@localhost"⟩ : AuthProviderLinkCookie).Kept sealingState ∧
    base64UrlDecode (base64UrlEncode sealingState [1, 2, 3]) = .ok [1, 2, 3] := by
  have hc : (⟨"provider", "bob", "bob@localhost"⟩ : AuthProviderLinkCookie).Addressable :=
    ⟨by decide, by decide, by decide⟩
  obtain ⟨hkept, hbytes⟩ := link_cookie_kept sealing_sealingState
  exact ⟨(hkept _ hc).mpr (by decide), (hbytes _).mpr (by decide)⟩

/-- The cookie of a link is lost: with 36 bytes of overhead, that of `alice@localhost`. -/
theorem link_cookie_lost : ¬ ∀ (data : AppState) (overhead : ℕ) (c : AuthProviderLinkCookie),
    Sealing data overhead → c.Addressable → c.Kept data := by
  intro h
  have hc : sampleLink.Addressable := ⟨by decide, by decide, by decide⟩
  have hkept := h _ _ sampleLink sealing_sealingState hc
  rw [AuthProviderLinkCookie.kept_iff sealing_sealingState hc] at hkept
  exact absurd hkept (by decide)

end Rauthy
