/-
Rauthy/Lib/Bincode.lean

The binary format of bincode 1.x with its default options: integers in little endian
with a fixed width, texts as a 64-bit length and their UTF-8 bytes, options with a
tag byte, enumerations with a 32-bit variant.  Decoders return the bytes they have
not read; what is left over at the end is ignored by their callers.

Main results: `decInt_leBytes`, `decStr_encStr` and `decOption_encOption`, which read
back what was written whatever follows it.
-/
import Mathlib.Tactic.Common
import Mathlib.Tactic.Ring
import Rauthy.Lib.Text

namespace Bincode

variable {k n : ℕ} {b : List UInt8}

/-- A decoder: the value and the rest of the bytes, or a failure. -/
abbrev Dec (α : Type) := List UInt8 → Option (α × List UInt8)

/-! ### Integers -/

/-- `n` in `k` bytes, the lowest first. -/
def leBytes : ℕ → ℕ → List UInt8
  | 0, _ => []
  | k + 1, n => UInt8.ofNat (n % 256) :: leBytes k (n / 256)

/-- The number that bytes in little endian stand for. -/
def leNat : List UInt8 → ℕ
  | [] => 0
  | b :: bs => b.toNat + 256 * leNat bs

/-- The first `k` bytes, if there are as many. -/
def takeN (k : ℕ) : Dec (List UInt8) := fun b =>
  if k ≤ b.length then some (b.take k, b.drop k) else none

/-- An integer of `k` bytes. -/
def decInt (k : ℕ) : Dec ℕ := fun b => (takeN k b).map fun r => (leNat r.1, r.2)

@[simp] theorem length_leBytes (k n : ℕ) : (leBytes k n).length = k := by
  induction k generalizing n with
  | zero => rfl
  | succ k ih => simp [leBytes, ih]

theorem leNat_leBytes (h : n < 256 ^ k) : leNat (leBytes k n) = n := by
  induction k generalizing n with
  | zero =>
      have hn : n = 0 := by simpa using h
      rw [hn]; rfl
  | succ k ih =>
      have hdiv : n / 256 < 256 ^ k := by
        rw [Nat.div_lt_iff_lt_mul (by decide), ← pow_succ]
        exact h
      have hbyte : (UInt8.ofNat (n % 256)).toNat = n % 256 := by
        rw [UInt8.toNat_ofNat']
        exact Nat.mod_eq_of_lt (Nat.mod_lt _ (by decide))
      rw [leBytes, leNat, ih hdiv, hbyte]
      omega

/-- An integer in little endian, cut in two. -/
theorem leBytes_add (j k n : ℕ) : leBytes (j + k) n = leBytes j n ++ leBytes k (n / 256 ^ j) := by
  induction j generalizing n with
  | zero => simp [leBytes]
  | succ j ih =>
      rw [Nat.succ_add, leBytes, leBytes, ih, List.cons_append, Nat.div_div_eq_div_mul, pow_succ,
        Nat.mul_comm]

theorem takeN_append {r : List UInt8} : takeN b.length (b ++ r) = some (b, r) := by
  simp [takeN]

theorem takeN_of_length_lt (h : b.length < k) : takeN k b = none := by
  rw [takeN, if_neg (by omega)]

theorem decInt_leBytes (h : n < 256 ^ k) (r : List UInt8) :
    decInt k (leBytes k n ++ r) = some (n, r) := by
  have htake := takeN_append (b := leBytes k n) (r := r)
  rw [length_leBytes] at htake
  rw [decInt, htake, Option.map_some, leNat_leBytes h]

theorem decInt_of_length_lt (h : b.length < k) : decInt k b = none := by
  rw [decInt, takeN_of_length_lt h, Option.map_none]

/-! ### Texts -/

/-- The characters of a UTF-8 text, if it is one.  Every character takes up a byte, so
the number of bytes is fuel enough. -/
def utf8Decode : ℕ → List UInt8 → Option (List Char)
  | _, [] => some []
  | 0, _ :: _ => none
  | n + 1, b :: bs =>
      match (b :: bs).toByteArray.utf8DecodeChar? 0 with
      | none => none
      | some c => (utf8Decode n ((b :: bs).drop c.utf8Size)).map (c :: ·)

def encStr (s : String) : List UInt8 := leBytes 8 (Text.asBytes s).length ++ Text.asBytes s

def decStr : Dec String := fun b => do
  let (n, r) ← decInt 8 b
  let (x, r) ← takeN n r
  let cs ← utf8Decode x.length x
  return (String.ofList cs, r)

theorem utf8Decode_encode {cs : List Char} (h : (cs.flatMap String.utf8EncodeChar).length ≤ n) :
    utf8Decode n (cs.flatMap String.utf8EncodeChar) = some cs := by
  induction cs generalizing n with
  | nil =>
      cases n <;> rfl
  | cons c cs ih =>
      have hpos := c.utf8Size_pos
      have hlen := String.length_utf8EncodeChar c
      rw [List.flatMap_cons, List.length_append, hlen] at h
      -- the encoding of a character is not empty
      obtain ⟨b, bs, hbs⟩ : ∃ b bs, String.utf8EncodeChar c = b :: bs := by
        rcases e : String.utf8EncodeChar c with - | ⟨b, bs⟩
        · rw [e] at hlen
          simp only [List.length_nil] at hlen
          omega
        · exact ⟨b, bs, rfl⟩
      obtain ⟨n, rfl⟩ : ∃ m, n = m + 1 := ⟨n - 1, by omega⟩
      have hdec : ((String.utf8EncodeChar c) ++ cs.flatMap String.utf8EncodeChar).toByteArray.utf8DecodeChar?
          0 = some c := by
        rw [List.toByteArray_append]
        exact ByteArray.utf8DecodeChar?_utf8EncodeChar_append
      have hdrop : ((String.utf8EncodeChar c) ++ cs.flatMap String.utf8EncodeChar).drop c.utf8Size =
          cs.flatMap String.utf8EncodeChar := by
        rw [← hlen, List.drop_left]
      rw [List.flatMap_cons]
      rw [hbs, List.cons_append] at hdec hdrop ⊢
      rw [utf8Decode, hdec]
      simp only
      rw [hdrop, ih (by omega), Option.map_some]

/-- **A text is read back**, whatever follows it. -/
theorem decStr_encStr {s : String} (h : (Text.asBytes s).length < 256 ^ 8) (r : List UInt8) :
    decStr (encStr s ++ r) = some (s, r) := by
  have hdec : utf8Decode (Text.asBytes s).length (Text.asBytes s) = some s.toList :=
    utf8Decode_encode (Nat.le_refl _)
  simp only [decStr, encStr, List.append_assoc, decInt_leBytes h, Option.bind_eq_bind,
    Option.bind_some, takeN_append, hdec, Option.pure_def, String.ofList_toList]

/-- Where an integer of four bytes is expected, a text shows its length. -/
theorem decInt_encStr {s : String} (h : (Text.asBytes s).length < 256 ^ 4) (r : List UInt8) :
    ∃ r', decInt 4 (encStr s ++ r) = some ((Text.asBytes s).length, r') := by
  refine ⟨leBytes 4 ((Text.asBytes s).length / 256 ^ 4) ++ (Text.asBytes s ++ r), ?_⟩
  have hsplit : encStr s ++ r = leBytes 4 (Text.asBytes s).length ++
      (leBytes 4 ((Text.asBytes s).length / 256 ^ 4) ++ (Text.asBytes s ++ r)) := by
    rw [encStr, show (8 : ℕ) = 4 + 4 from rfl, leBytes_add, List.append_assoc, List.append_assoc]
  rw [hsplit, decInt_leBytes h]

/-! ### Options -/

variable {α : Type}

def encOption (enc : α → List UInt8) : Option α → List UInt8
  | none => [0]
  | some a => 1 :: enc a

def decOption (dec : Dec α) : Dec (Option α)
  | 0 :: r => some (none, r)
  | 1 :: r => (dec r).map fun x => (some x.1, x.2)
  | _ => none

theorem decOption_encOption {enc : α → List UInt8} {dec : Dec α} {x : Option α}
    (h : ∀ a ∈ x, ∀ r, dec (enc a ++ r) = some (a, r)) (r : List UInt8) :
    decOption dec (encOption enc x ++ r) = some (x, r) := by
  rcases x with - | a
  · rfl
  · simp [encOption, decOption, h a rfl]

end Bincode
