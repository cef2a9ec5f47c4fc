/-
Rauthy/Lib/Text.lean

String functions with the behaviour of Rust's `str` methods, written by recursion
on the list of characters so that they evaluate.
-/
import Mathlib.Data.List.Infix
import Mathlib.Data.String.Basic
import Rauthy.Lib.Csv

namespace Text

variable {s : String} {n : ℕ}

/-- The pieces of a list between the occurrences of `c`; never empty. -/
def splitList (c : Char) : List Char → List (List Char)
  | [] => [[]]
  | x :: xs =>
      if x = c then [] :: splitList c xs
      else
        match splitList c xs with
        | [] => [[x]]
        | y :: ys => (x :: y) :: ys

/-- `s.split(c)` -/
def split (c : Char) (s : String) : List String := (splitList c s.toList).map String.ofList

/-- `p` occurs in the list. -/
def infixOf (p : List Char) : List Char → Bool
  | [] => p.isEmpty
  | x :: xs => p.isPrefixOf (x :: xs) || infixOf p xs

/-- `s.contains(p)` -/
def contains (s p : String) : Bool := infixOf p.toList s.toList

/-- `s.starts_with(p)` -/
def startsWith (s p : String) : Bool := p.toList.isPrefixOf s.toList

/-- `s.ends_with(p)` -/
def endsWith (s p : String) : Bool := p.toList.isSuffixOf s.toList

/-- The list before and after the first occurrence of `p`, if there is one. -/
def splitOnceList (p : List Char) : List Char → Option (List Char × List Char)
  | [] => if p.isEmpty then some ([], []) else none
  | x :: xs =>
      if p.isPrefixOf (x :: xs) then some ([], (x :: xs).drop p.length)
      else (splitOnceList p xs).map fun r => (x :: r.1, r.2)

/-- `s.split_once(p)` -/
def splitOnce (s p : String) : Option (String × String) :=
  (splitOnceList p.toList s.toList).map fun r => (String.ofList r.1, String.ofList r.2)

/-- `char::is_whitespace`: the Unicode property `White_Space`. -/
def isWhitespace (c : Char) : Bool :=
  (9 ≤ c.toNat && c.toNat ≤ 13) || c.toNat == 0x20 || c.toNat == 0x85 || c.toNat == 0xA0 ||
    c.toNat == 0x1680 || (0x2000 ≤ c.toNat && c.toNat ≤ 0x200A) || c.toNat == 0x2028 ||
    c.toNat == 0x2029 || c.toNat == 0x202F || c.toNat == 0x205F || c.toNat == 0x3000

/-- `s.trim()` -/
def trim (s : String) : String :=
  String.ofList (((s.toList.dropWhile isWhitespace).reverse.dropWhile isWhitespace).reverse)

/-- `v.join(sep)` -/
def join (sep : String) : List String → String
  | [] => ""
  | [s] => s
  | s :: t :: r => s ++ sep ++ join sep (t :: r)

/-- `s.replace(c, d)` for two characters -/
def replaceChar (c d : Char) (s : String) : String :=
  String.ofList (s.toList.map fun x => if x = c then d else x)

/-- `s.replace(p, q)` -/
def replace (s p q : String) : String :=
  String.ofList (Csv.replace p.toList q.toList s.toList)

/-- The bytes before the first occurrence of `p`, if there is one. -/
def findList (p : List Char) : List Char → Option ℕ
  | [] => if p.isEmpty then some 0 else none
  | x :: xs => if p.isPrefixOf (x :: xs) then some 0 else (findList p xs).map (· + x.utf8Size)

/-- `s.find(p)` -/
def find (s p : String) : Option ℕ := findList p.toList s.toList

/-- `s.len()`: the number of bytes of the UTF-8 encoding -/
def len (s : String) : ℕ := s.utf8ByteSize

/-- `s.as_bytes()`: the UTF-8 encoding -/
def asBytes (s : String) : List UInt8 := s.toList.flatMap String.utf8EncodeChar

/-- The bytes that the text is kept in: cheaper to evaluate than its characters. -/
theorem asBytes_eq_toByteArray (s : String) : asBytes s = s.toByteArray.data.toList := by
  rw [← String.utf8Encode_toList, List.utf8Encode, asBytes, List.data_toByteArray]

theorem asBytes_append (s t : String) :
    asBytes (s ++ t) = asBytes s ++ asBytes t := by
  rw [asBytes, String.toList_append, List.flatMap_append]
  rfl

theorem asBytes_inj {t : String} (h : asBytes s = asBytes t) : s = t := by
  have hs : (asBytes s).toByteArray = s.toByteArray := String.utf8Encode_toList
  have ht : (asBytes t).toByteArray = t.toByteArray := String.utf8Encode_toList
  rw [h, ht] at hs
  exact String.toByteArray_inj.mp hs.symm

/-- The characters that take up the first `n` bytes, if `n` is a boundary. -/
def takeBytes : ℕ → List Char → Option (List Char)
  | 0, _ => some []
  | _ + 1, [] => none
  | n + 1, c :: cs =>
      if c.utf8Size ≤ n + 1 then (takeBytes (n + 1 - c.utf8Size) cs).map (c :: ·) else none
termination_by structural _ cs => cs

/-- `&s[..n]`; `none` where it panics -/
def sliceTo (s : String) (n : ℕ) : Option String := (takeBytes n s.toList).map String.ofList

/-- `s.split_off(s.len() - n)`: the last `n` bytes; `none` where it panics -/
def lastBytes (s : String) (n : ℕ) : Option String :=
  let rec go : List Char → Option (List Char)
    | [] => if n = 0 then some [] else none
    | c :: cs =>
        if len (String.ofList (c :: cs)) = n then some (c :: cs) else go cs
  (go s.toList).map String.ofList

/-- A text that is as long as its end. -/
theorem lastBytes_self (h : len s = n) (hn : n ≠ 0) :
    lastBytes s n = some s := by
  unfold lastBytes
  rcases hs : s.toList with - | ⟨c, cs⟩
  · rw [String.toList_eq_nil_iff] at hs
    subst hs
    exact absurd h.symm hn
  · have hofList : String.ofList (c :: cs) = s := by rw [← hs, String.ofList_toList]
    simp only [lastBytes.go, hofList, h, if_true, Option.map_some]

theorem utf8Len_of_ascii {l : List Char} (h : ∀ c ∈ l, c.utf8Size = 1) :
    String.utf8Len l = l.length := by
  induction l with
  | nil => rfl
  | cons c l ih =>
      rw [String.utf8Len, ih fun c' hc' => h c' (List.mem_cons_of_mem _ hc'),
        h c List.mem_cons_self, List.length_cons]

/-- One byte for each character. -/
theorem len_of_ascii (h : ∀ c ∈ s.toList, c.utf8Size = 1) :
    len s = s.toList.length := by
  have hsize := String.utf8ByteSize_ofList s.toList
  rw [String.ofList_toList] at hsize
  rw [len, hsize, utf8Len_of_ascii h]

/-- A text can be cut `n` bytes before its end. -/
theorem lastBytes_eq_some {t : String} (h : lastBytes s n = some t) :
    len t = n ∧ ∃ front, s.toList = front ++ t.toList := by
  have hgo : ∀ l cs : List Char, lastBytes.go n l = some cs →
      len (String.ofList cs) = n ∧ ∃ front, l = front ++ cs := by
    intro l
    induction l with
    | nil =>
        intro cs h
        rw [lastBytes.go] at h
        split at h
        · next hn =>
            obtain rfl := Option.some.inj h
            exact ⟨by rw [hn]; rfl, [], rfl⟩
        · cases h
    | cons c l ih =>
        intro cs h
        rw [lastBytes.go] at h
        split at h
        · next hlen =>
            obtain rfl := Option.some.inj h
            exact ⟨hlen, [], rfl⟩
        · obtain ⟨hlen, front, hl⟩ := ih cs h
          exact ⟨hlen, c :: front, by rw [hl, List.cons_append]⟩
  obtain ⟨cs, hcs, rfl⟩ := Option.map_eq_some_iff.mp h
  obtain ⟨hlen, front, hfront⟩ := hgo s.toList cs hcs
  exact ⟨hlen, front, by rw [String.toList_ofList, hfront]⟩

/-- The last characters are cut off if they take a byte each. -/
theorem lastBytes_of_ascii {front ds : List Char} (hs : s.toList = front ++ ds)
    (hds : ∀ c ∈ ds, c.utf8Size = 1) (hne : ds ≠ []) :
    lastBytes s ds.length = some (String.ofList ds) := by
  have hlen : ∀ l : List Char, len (String.ofList l) = String.utf8Len l := fun l =>
    String.utf8ByteSize_ofList l
  -- whatever stands in front makes the text longer
  have hmore : ∀ front : List Char, ds.length ≤ String.utf8Len (front ++ ds) := by
    intro front
    induction front with
    | nil => rw [List.nil_append, utf8Len_of_ascii hds]
    | cons c front ih =>
        rw [List.cons_append, String.utf8Len]
        omega
  have hgo : ∀ front, lastBytes.go ds.length (front ++ ds) = some ds := by
    intro front
    induction front with
    | nil =>
        rcases ds with - | ⟨d, ds⟩
        · exact absurd rfl hne
        · rw [List.nil_append, lastBytes.go, if_pos]
          rw [hlen, utf8Len_of_ascii hds]
    | cons c front ih =>
        have hc := c.utf8Size_pos
        have hfront := hmore front
        rw [List.cons_append, lastBytes.go, if_neg, ih]
        rw [hlen, String.utf8Len]
        omega
  rw [lastBytes, hs, hgo front]
  rfl

/-- At least one byte for each character. -/
theorem length_le_len (s : String) : s.toList.length ≤ len s := by
  have hlist : ∀ l : List Char, l.length ≤ String.utf8Len l := by
    intro l
    induction l with
    | nil => exact le_rfl
    | cons c l ih =>
        have hpos := c.utf8Size_pos
        rw [String.utf8Len, List.length_cons]
        omega
  have hsize := String.utf8ByteSize_ofList s.toList
  rw [String.ofList_toList] at hsize
  rw [len, hsize]
  exact hlist _

/-- `s.is_char_boundary(n)`: the first characters of the text take up `n` bytes. -/
def IsCharBoundary (s : String) (n : ℕ) : Prop := ∃ cs, cs <+: s.toList ∧ String.utf8Len cs = n

theorem takeBytes_eq_some {cs l : List Char} :
    takeBytes n l = some cs ↔ cs <+: l ∧ String.utf8Len cs = n := by
  have hempty : ∀ {cs : List Char}, String.utf8Len cs = 0 → cs = [] := by
    intro cs h
    rcases cs with - | ⟨c, cs⟩
    · rfl
    · have hpos := c.utf8Size_pos
      rw [String.utf8Len] at h
      omega
  induction l generalizing n cs with
  | nil =>
      rw [List.prefix_nil]
      cases n with
      | zero =>
          rw [takeBytes, Option.some.injEq, eq_comm]
          exact ⟨fun h => ⟨h, by rw [h]; rfl⟩, And.left⟩
      | succ n =>
          refine ⟨fun h => (by cases h), fun ⟨hcs, hlen⟩ => ?_⟩
          rw [hcs] at hlen
          cases hlen
  | cons c l ih =>
      have hpos := c.utf8Size_pos
      cases n with
      | zero =>
          rw [takeBytes, Option.some.injEq, eq_comm]
          exact ⟨fun h => ⟨h ▸ List.nil_prefix, h ▸ rfl⟩, fun h => hempty h.2⟩
      | succ n =>
          rw [takeBytes]
          constructor
          · intro h
            split at h
            · obtain ⟨ds, hds, rfl⟩ := Option.map_eq_some_iff.mp h
              obtain ⟨hpre, hlen⟩ := ih.mp hds
              refine ⟨(List.prefix_cons_inj c).mpr hpre, ?_⟩
              rw [String.utf8Len, hlen]
              omega
            · cases h
          · rintro ⟨hpre, hlen⟩
            rcases cs with - | ⟨d, ds⟩
            · cases hlen
            · obtain ⟨rfl, hds⟩ := List.cons_prefix_cons.mp hpre
              rw [String.utf8Len] at hlen
              rw [if_pos (by omega), ih.mpr ⟨hds, by omega⟩]
              rfl

/-- A text can be cut at its boundaries. -/
theorem sliceTo_isSome :
    (sliceTo s n).isSome = true ↔ IsCharBoundary s n := by
  rw [sliceTo, Option.isSome_map, Option.isSome_iff_exists]
  exact exists_congr fun cs => takeBytes_eq_some

/-- In an ASCII text there is a boundary after each character. -/
theorem isCharBoundary_of_ascii (h : ∀ c ∈ s.toList, c.utf8Size = 1) (hn : n ≤ s.toList.length) :
    IsCharBoundary s n := by
  refine ⟨s.toList.take n, List.take_prefix n _, ?_⟩
  rw [utf8Len_of_ascii fun c hc => h c (List.mem_of_mem_take hc), List.length_take,
    Nat.min_eq_left hn]

/-- No boundary is behind the end. -/
theorem IsCharBoundary.le_len (h : IsCharBoundary s n) : n ≤ len s := by
  obtain ⟨cs, ⟨rest, hrest⟩, rfl⟩ := h
  have hlen : ∀ l r : List Char, String.utf8Len l ≤ String.utf8Len (l ++ r) := by
    intro l r
    induction l with
    | nil => exact Nat.zero_le _
    | cons c l ih =>
        rw [List.cons_append, String.utf8Len, String.utf8Len]
        omega
  have hsize := String.utf8ByteSize_ofList s.toList
  rw [String.ofList_toList] at hsize
  rw [len, hsize, ← hrest]
  exact hlen cs rest

/-! ### As lists of characters -/

section Lists

variable {s p q : String}

theorem splitList_eq_splitOn (c : Char) (xs : List Char) : splitList c xs = xs.splitOn c := by
  induction xs with
  | nil => rfl
  | cons x xs ih =>
      rw [splitList, List.splitOn_cons_eq_if_modifyHead, ih]
      by_cases hx : x = c
      · rw [if_pos hx, if_pos (by simpa using hx)]
      · rw [if_neg hx, if_neg (by simpa using hx)]
        obtain ⟨y, ys, hsplit⟩ := List.exists_cons_of_ne_nil (List.splitOn_ne_nil c xs)
        rw [hsplit, List.modifyHead_cons]

theorem split_eq (c : Char) (s : String) :
    split c s = (s.toList.splitOn c).map String.ofList := by
  rw [split, splitList_eq_splitOn]

theorem infixOf_iff {p xs : List Char} : infixOf p xs = true ↔ p <:+: xs := by
  induction xs with
  | nil => rw [infixOf, List.isEmpty_iff, List.infix_nil]
  | cons x xs ih =>
      rw [infixOf, Bool.or_eq_true, ih, List.isPrefixOf_iff_prefix, List.infix_cons_iff]

theorem contains_iff : contains s p = true ↔ p.toList <:+: s.toList := infixOf_iff

theorem startsWith_iff : startsWith s p = true ↔ p.toList <+: s.toList :=
  List.isPrefixOf_iff_prefix

theorem toList_replace (s p q : String) :
    (replace s p q).toList = Csv.replace p.toList q.toList s.toList := String.toList_ofList

theorem toList_trim (s : String) : (trim s).toList = Csv.trim isWhitespace s.toList :=
  String.toList_ofList

theorem toList_join (sep : String) (l : List String) :
    (join sep l).toList = sep.toList.intercalate (l.map String.toList) := by
  induction l with
  | nil => rfl
  | cons s l ih =>
      rcases l with - | ⟨t, l⟩
      · simp [join]
      · rw [join, String.toList_append, String.toList_append, ih, List.map_cons, List.map_cons,
          List.map_cons, List.intercalate_cons_cons]

/-- A list that is not empty and has no separator in its elements is read back. -/
theorem split_join {c : Char} {l : List String} (hl : l ≠ []) (hc : ∀ s ∈ l, c ∉ s.toList) :
    split c (join (String.singleton c) l) = l := by
  have hcells : ∀ a ∈ l.map String.toList, c ∉ a := by
    rw [List.forall_mem_map]
    exact hc
  rw [split_eq, toList_join, String.toList_singleton,
    List.splitOn_intercalate c hcells (by simpa using hl), List.map_map]
  simp

theorem findList_eq_none_iff {p xs : List Char} : findList p xs = none ↔ ¬ p <:+: xs := by
  induction xs with
  | nil => rcases p with - | ⟨c, p⟩ <;> simp [findList]
  | cons x xs ih =>
      rw [List.infix_cons_iff, ← List.isPrefixOf_iff_prefix, findList]
      by_cases hp : p.isPrefixOf (x :: xs) = true
      · simp [hp]
      · rw [if_neg hp, Option.map_eq_none_iff, ih]
        simp [hp]

theorem find_eq_none_iff : find s p = none ↔ ¬ contains s p = true := by
  rw [contains_iff]
  exact findList_eq_none_iff

/-- The first occurrence is at the front. -/
theorem find_eq_zero_iff : find s p = some 0 ↔ startsWith s p = true := by
  rw [startsWith_iff, find]
  rcases s.toList with - | ⟨x, xs⟩
  · rcases p.toList with - | ⟨c, l⟩ <;> simp [findList]
  · rw [← List.isPrefixOf_iff_prefix, findList]
    by_cases hp : p.toList.isPrefixOf (x :: xs) = true
    · simp [hp]
    · rw [if_neg hp, Option.map_eq_some_iff]
      refine iff_of_false ?_ hp
      rintro ⟨n, -, hn⟩
      have hpos := x.utf8Size_pos
      omega

/-- A text is longer than one it starts with, or the same. -/
theorem len_lt_iff_of_prefix (h : p.toList <+: s.toList) : len p < len s ↔ s ≠ p := by
  have hlen : ∀ t : String, len t = String.utf8Len t.toList := by
    intro t
    have hsize := String.utf8ByteSize_ofList t.toList
    rwa [String.ofList_toList] at hsize
  obtain ⟨r, hr⟩ := h
  rw [hlen, hlen, ← hr, String.utf8Len_append, ne_eq, ← String.toList_inj, ← hr]
  rcases r with - | ⟨x, r⟩
  · simp
  · have hpos := x.utf8Size_pos
    rw [String.utf8Len]
    simp
    omega

end Lists

/-! ### `split_once` at a character -/

theorem splitOnceList_char {c : Char} {xs ys : List Char} (h : c ∉ xs) :
    splitOnceList [c] (xs ++ c :: ys) = some (xs, ys) := by
  induction xs with
  | nil => simp [splitOnceList]
  | cons x xs ih =>
      rw [List.mem_cons, not_or] at h
      rw [List.cons_append, splitOnceList, ih h.2]
      simp [h.1]

theorem splitOnceList_char_none {c : Char} {xs : List Char} (h : c ∉ xs) :
    splitOnceList [c] xs = none := by
  induction xs with
  | nil => rfl
  | cons x xs ih =>
      rw [List.mem_cons, not_or] at h
      rw [splitOnceList, ih h.2]
      simp [h.1]

end Text
