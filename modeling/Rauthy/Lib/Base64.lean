/-
Rauthy/Lib/Base64.lean

Base 64 of lists of bytes, over any alphabet of 64 characters, with and without padding.  The
decoder for padded texts is the strict one: it wants the padding that the encoder writes, and
no bits that are left over.

Main results: `decode_encode`, and `decode_encode_noPad`, which says when the decoder for padded
texts reads a text without padding.
-/
import Mathlib.Data.List.GetD
import Mathlib.Data.List.Nodup
import Mathlib.Tactic.Common

namespace Base64

/-! ### Alphabets -/

/-- The padding. -/
def pad : Char := '='

structure Alphabet where
  symbols : List Char
  length_symbols : symbols.length = 64
  nodup_symbols : symbols.Nodup
  pad_notMem : pad ∉ symbols

namespace Alphabet

variable (A : Alphabet)

/-- The character of a value. -/
def symbol (v : ℕ) : Char := A.symbols.getD v pad

/-- The value of a character. -/
def value (c : Char) : Option ℕ := if c ∈ A.symbols then some (A.symbols.idxOf c) else none

variable {A}
  {v : ℕ}

theorem symbol_mem (h : v < 64) : A.symbol v ∈ A.symbols := by
  have hlt : v < A.symbols.length := by rw [A.length_symbols]; exact h
  rw [symbol, List.getD_eq_getElem _ _ hlt]
  exact List.getElem_mem hlt

theorem value_symbol (h : v < 64) : A.value (A.symbol v) = some v := by
  have hlt : v < A.symbols.length := by rw [A.length_symbols]; exact h
  rw [value, if_pos (symbol_mem h), symbol, List.getD_eq_getElem _ _ hlt,
    A.nodup_symbols.idxOf_getElem]

theorem symbol_ne_pad (h : v < 64) : A.symbol v ≠ pad := by
  intro he
  apply A.pad_notMem
  rw [← he]
  exact symbol_mem h

end Alphabet

/-- The characters that all alphabets share, for the values below 62. -/
def letters : List Char := [
  'A', 'B', 'C', 'D', 'E', 'F', 'G', 'H', 'I', 'J', 'K', 'L', 'M',
  'N', 'O', 'P', 'Q', 'R', 'S', 'T', 'U', 'V', 'W', 'X', 'Y', 'Z',
  'a', 'b', 'c', 'd', 'e', 'f', 'g', 'h', 'i', 'j', 'k', 'l', 'm',
  'n', 'o', 'p', 'q', 'r', 's', 't', 'u', 'v', 'w', 'x', 'y', 'z',
  '0', '1', '2', '3', '4', '5', '6', '7', '8', '9']

def standard : Alphabet where
  symbols := letters ++ ['+', '/']
  length_symbols := rfl
  nodup_symbols := .of_map Char.toNat (by decide)
  pad_notMem := by decide

def urlSafe : Alphabet where
  symbols := letters ++ ['-', '_']
  length_symbols := rfl
  nodup_symbols := .of_map Char.toNat (by decide)
  pad_notMem := by decide

/-! ### The first three bytes -/

/-- The values of the four characters for three bytes. -/
def sextet₁ (a : UInt8) : ℕ := a.toNat / 4
def sextet₂ (a b : UInt8) : ℕ := a.toNat % 4 * 16 + b.toNat / 16
def sextet₃ (b c : UInt8) : ℕ := b.toNat % 16 * 4 + c.toNat / 64
def sextet₄ (c : UInt8) : ℕ := c.toNat % 64

/-- The bytes of four values. -/
def byte₁ (p q : ℕ) : UInt8 := UInt8.ofNat (p * 4 + q / 16)
def byte₂ (q r : ℕ) : UInt8 := UInt8.ofNat (q % 16 * 16 + r / 4)
def byte₃ (r s : ℕ) : UInt8 := UInt8.ofNat (r % 4 * 64 + s)

theorem sextet₁_lt (a : UInt8) : sextet₁ a < 64 := by
  have ha := a.toNat_lt
  unfold sextet₁
  omega

theorem sextet₂_lt (a b : UInt8) : sextet₂ a b < 64 := by
  have hb := b.toNat_lt
  unfold sextet₂
  omega

theorem sextet₃_lt (b c : UInt8) : sextet₃ b c < 64 := by
  have hc := c.toNat_lt
  unfold sextet₃
  omega

theorem sextet₄_lt (c : UInt8) : sextet₄ c < 64 := by
  unfold sextet₄
  omega

theorem byte₁_sextets (a b : UInt8) : byte₁ (sextet₁ a) (sextet₂ a b) = a := by
  have hb := b.toNat_lt
  have hsum : sextet₁ a * 4 + sextet₂ a b / 16 = a.toNat := by
    unfold sextet₁ sextet₂
    omega
  rw [byte₁, hsum, UInt8.ofNat_toNat]

theorem byte₂_sextets (a b c : UInt8) : byte₂ (sextet₂ a b) (sextet₃ b c) = b := by
  have hb := b.toNat_lt
  have hc := c.toNat_lt
  have hsum : sextet₂ a b % 16 * 16 + sextet₃ b c / 4 = b.toNat := by
    unfold sextet₂ sextet₃
    omega
  rw [byte₂, hsum, UInt8.ofNat_toNat]

theorem byte₃_sextets (b c : UInt8) : byte₃ (sextet₃ b c) (sextet₄ c) = c := by
  have hc := c.toNat_lt
  have hsum : sextet₃ b c % 4 * 64 + sextet₄ c = c.toNat := by
    unfold sextet₃ sextet₄
    omega
  rw [byte₃, hsum, UInt8.ofNat_toNat]

/-! ### Texts -/

variable (A : Alphabet)

/-- The text of bytes, with padding if `p` says so. -/
def encode (p : Bool) : List UInt8 → List Char
  | [] => []
  | [a] =>
      A.symbol (sextet₁ a) :: A.symbol (sextet₂ a 0) :: if p then [pad, pad] else []
  | [a, b] =>
      A.symbol (sextet₁ a) :: A.symbol (sextet₂ a b) :: A.symbol (sextet₃ b 0) ::
        if p then [pad] else []
  | a :: b :: c :: bs =>
      A.symbol (sextet₁ a) :: A.symbol (sextet₂ a b) :: A.symbol (sextet₃ b c) ::
        A.symbol (sextet₄ c) :: encode p bs

/-- The byte of a last group of two characters. -/
def decode₂ (x y : Char) : Option (List UInt8) := do
  let p ← A.value x
  let q ← A.value y
  if q % 16 = 0 then some [byte₁ p q] else none

/-- The two bytes of a last group of three characters. -/
def decode₃ (x y z : Char) : Option (List UInt8) := do
  let p ← A.value x
  let q ← A.value y
  let r ← A.value z
  if r % 4 = 0 then some [byte₁ p q, byte₂ q r] else none

def decode₄ (x y z t : Char) : Option (List UInt8) := do
  let p ← A.value x
  let q ← A.value y
  let r ← A.value z
  let s ← A.value t
  return [byte₁ p q, byte₂ q r, byte₃ r s]

/-- The bytes of a text, which has its padding if `p` says so. -/
def decode (p : Bool) : List Char → Option (List UInt8)
  | [] => some []
  | [_] => none
  | [x, y] => if p then none else decode₂ A x y
  | [x, y, z] => if p then none else decode₃ A x y z
  | x :: y :: z :: t :: cs =>
      if p = true ∧ cs = [] ∧ t = pad then
        if z = pad then decode₂ A x y else decode₃ A x y z
      else do
        let bs ← decode₄ A x y z t
        return bs ++ (← decode p cs)

variable {A}

theorem decode₂_symbols (a : UInt8) :
    decode₂ A (A.symbol (sextet₁ a)) (A.symbol (sextet₂ a 0)) = some [a] := by
  have hlast : sextet₂ a 0 % 16 = 0 := by
    show (a.toNat % 4 * 16 + 0 / 16) % 16 = 0
    omega
  simp only [decode₂, Alphabet.value_symbol (sextet₁_lt a), Alphabet.value_symbol (sextet₂_lt a 0),
    Option.bind_eq_bind, Option.bind_some, if_pos hlast, byte₁_sextets]

theorem decode₃_symbols (a b : UInt8) :
    decode₃ A (A.symbol (sextet₁ a)) (A.symbol (sextet₂ a b)) (A.symbol (sextet₃ b 0)) =
      some [a, b] := by
  have hlast : sextet₃ b 0 % 4 = 0 := by
    show (b.toNat % 16 * 4 + 0 / 64) % 4 = 0
    omega
  simp only [decode₃, Alphabet.value_symbol (sextet₁_lt a), Alphabet.value_symbol (sextet₂_lt a b),
    Alphabet.value_symbol (sextet₃_lt b 0), Option.bind_eq_bind, Option.bind_some, if_pos hlast,
    byte₁_sextets, byte₂_sextets]

theorem decode₄_symbols (a b c : UInt8) :
    decode₄ A (A.symbol (sextet₁ a)) (A.symbol (sextet₂ a b)) (A.symbol (sextet₃ b c))
      (A.symbol (sextet₄ c)) = some [a, b, c] := by
  simp only [decode₄, Alphabet.value_symbol (sextet₁_lt a), Alphabet.value_symbol (sextet₂_lt a b),
    Alphabet.value_symbol (sextet₃_lt b c), Alphabet.value_symbol (sextet₄_lt c),
    Option.bind_eq_bind, Option.bind_some, byte₁_sextets, byte₂_sextets, byte₃_sextets]
  rfl

/-- The first three bytes are read from the first four characters. -/
theorem decode_group {p : Bool} (a b c : UInt8) (cs : List Char) :
    decode A p (A.symbol (sextet₁ a) :: A.symbol (sextet₂ a b) :: A.symbol (sextet₃ b c) ::
      A.symbol (sextet₄ c) :: cs) = (decode A p cs).map (a :: b :: c :: ·) := by
  have hpad : ¬ (p = true ∧ cs = [] ∧ A.symbol (sextet₄ c) = pad) := by
    rintro ⟨-, -, h⟩
    exact Alphabet.symbol_ne_pad (sextet₄_lt c) h
  rw [decode, if_neg hpad, decode₄_symbols]
  cases decode A p cs <;> rfl

/-- **Bytes are read back** by the decoder that treats padding as the encoder does. -/
theorem decode_encode (p : Bool) (bs : List UInt8) : decode A p (encode A p bs) = some bs := by
  induction bs using encode.induct with
  | case1 => rfl
  | case2 a =>
      cases p with
      | false => exact decode₂_symbols a
      | true =>
          rw [encode, if_pos rfl, decode, if_pos ⟨rfl, rfl, rfl⟩, if_pos rfl]
          exact decode₂_symbols a
  | case3 a b =>
      cases p with
      | false => exact decode₃_symbols a b
      | true =>
          rw [encode, if_pos rfl, decode, if_pos ⟨rfl, rfl, rfl⟩,
            if_neg (Alphabet.symbol_ne_pad (sextet₃_lt b 0))]
          exact decode₃_symbols a b
  | case4 a b c bs ih => rw [encode, decode_group, ih, Option.map_some]

/-- Without padding, a text has only the characters of the alphabet. -/
theorem mem_encode {bs : List UInt8} {c : Char} (h : c ∈ encode A false bs) : c ∈ A.symbols := by
  induction bs using encode.induct with
  | case1 => cases h
  | case2 a =>
      simp only [encode, Bool.false_eq_true, if_false, List.mem_cons, List.not_mem_nil, or_false] at h
      rcases h with rfl | rfl
      · exact Alphabet.symbol_mem (sextet₁_lt a)
      · exact Alphabet.symbol_mem (sextet₂_lt a 0)
  | case3 a b =>
      simp only [encode, Bool.false_eq_true, if_false, List.mem_cons, List.not_mem_nil, or_false] at h
      rcases h with rfl | rfl | rfl
      · exact Alphabet.symbol_mem (sextet₁_lt a)
      · exact Alphabet.symbol_mem (sextet₂_lt a b)
      · exact Alphabet.symbol_mem (sextet₃_lt b 0)
  | case4 a b c' bs ih =>
      simp only [encode, List.mem_cons] at h
      rcases h with rfl | rfl | rfl | rfl | h
      · exact Alphabet.symbol_mem (sextet₁_lt a)
      · exact Alphabet.symbol_mem (sextet₂_lt a b)
      · exact Alphabet.symbol_mem (sextet₃_lt b c')
      · exact Alphabet.symbol_mem (sextet₄_lt c')
      · exact ih h

/-- **A text without padding** is read by the decoder for padded texts exactly if it needs none. -/
theorem decode_encode_noPad (bs : List UInt8) :
    decode A true (encode A false bs) = if 3 ∣ bs.length then some bs else none := by
  induction bs using encode.induct with
  | case1 => rfl
  | case2 a =>
      rw [if_neg (by simp)]
      rfl
  | case3 a b =>
      rw [if_neg (by simp)]
      rfl
  | case4 a b c bs ih =>
      have hlen : 3 ∣ (a :: b :: c :: bs).length ↔ 3 ∣ bs.length := by
        simp only [List.length_cons]
        omega
      rw [encode, decode_group, ih]
      by_cases h : 3 ∣ bs.length
      · rw [if_pos h, if_pos (hlen.mpr h), Option.map_some]
      · rw [if_neg h, if_neg (mt hlen.mp h), Option.map_none]

/-- Removing the padding and translating the characters of one alphabet into another one is the
same as encoding without padding in the other one. -/
theorem filterMap_encode {B : Alphabet} {f : Char → Option Char} (hpad : f pad = none)
    (hsymbol : ∀ v < 64, f (A.symbol v) = some (B.symbol v)) (bs : List UInt8) :
    (encode A true bs).filterMap f = encode B false bs := by
  induction bs using encode.induct with
  | case1 => rfl
  | case2 a =>
      simp [encode, hpad, hsymbol _ (sextet₁_lt a), hsymbol _ (sextet₂_lt a 0)]
  | case3 a b =>
      simp [encode, hpad, hsymbol _ (sextet₁_lt a), hsymbol _ (sextet₂_lt a b),
        hsymbol _ (sextet₃_lt b 0)]
  | case4 a b c bs ih =>
      simp [encode, ih, hsymbol _ (sextet₁_lt a), hsymbol _ (sextet₂_lt a b),
        hsymbol _ (sextet₃_lt b c), hsymbol _ (sextet₄_lt c)]

end Base64
