/-
Rauthy/Lib/FormUrl.lean

Locations with form parameters, in bytes: the query of a URI, and the pairs that a form decoder
reads from it.

Main results:
  * `decode_eq_self_iff`, which texts are read as they are;
  * `params_append`, parameters behind a `&` are read on their own;
  * `query_append_of_hash`, what stands behind a fragment is not read at all.
-/
import Mathlib.Data.List.Infix
import Mathlib.Data.List.TakeWhile
import Mathlib.Tactic.Common

namespace FormUrl

/-! ### The decoder -/

/-- `#` -/
def hash : UInt8 := 35

/-- `%` -/
def percent : UInt8 := 37

/-- `&` -/
def amp : UInt8 := 38

/-- `+` -/
def plus : UInt8 := 43

/-- `=` -/
def equals : UInt8 := 61

/-- `?` -/
def question : UInt8 := 63

/-- The value of a hexadecimal digit. -/
def hex (b : UInt8) : Option UInt8 :=
  if 48 ≤ b ∧ b ≤ 57 then some (b - 48)
  else if 65 ≤ b ∧ b ≤ 70 then some (b - 55)
  else if 97 ≤ b ∧ b ≤ 102 then some (b - 87)
  else none

/-- The byte that a text behind `%` stands for. -/
def escaped : List UInt8 → Option UInt8
  | a :: b :: _ => do return 16 * (← hex a) + (← hex b)
  | _ => none

/-- A name or a value: `+` is a space, and `%` starts an escape if two digits follow. -/
def decode : List UInt8 → List UInt8
  | [] => []
  | x :: xs =>
      if x = plus then 32 :: decode xs
      else if x = percent then
        match escaped xs, xs with
        | some b, _ :: _ :: rest => b :: decode rest
        | _, xs => percent :: decode xs
      else x :: decode xs

/-- An escape, somewhere in the text. -/
def Escapes (l : List UInt8) : Prop := ∃ u v, l = u ++ percent :: v ∧ (escaped v).isSome = true

section Decode

variable {l u v : List UInt8} {x : UInt8}

theorem exists_of_escaped {b : UInt8} (h : escaped l = some b) :
    ∃ x y rest, l = x :: y :: rest := by
  rcases l with - | ⟨x, - | ⟨y, rest⟩⟩
  · cases h
  · cases h
  · exact ⟨x, y, rest, rfl⟩

/-- The escape of a text depends on its first two bytes. -/
theorem escaped_append (h : hex x = none) : escaped (u ++ x :: v) = escaped u := by
  rcases u with - | ⟨a, - | ⟨b, rest⟩⟩
  · rcases v with - | ⟨y, v⟩
    · rfl
    · show (hex x).bind _ = none
      rw [h]
      rfl
  · show (hex a).bind (fun m => (hex x).bind _) = none
    rw [h]
    cases hex a <;> rfl
  · rfl

theorem decode_plus (l : List UInt8) : decode (plus :: l) = 32 :: decode l := by
  rw [decode.eq_def]
  exact if_pos rfl

theorem decode_escape {b y : UInt8} (h : escaped (x :: y :: l) = some b) :
    decode (percent :: x :: y :: l) = b :: decode l := by
  rw [decode.eq_def]
  dsimp only
  rw [if_neg (by decide), if_pos rfl, h]

theorem decode_other (hplus : x ≠ plus) (h : x = percent → escaped l = none) :
    decode (x :: l) = x :: decode l := by
  rw [decode.eq_def]
  dsimp only
  rw [if_neg hplus]
  split
  · next hx =>
      rw [h hx, hx]
  · rfl

/-- Each byte of a text is a `+`, starts an escape, or is read as it is. -/
theorem decode_cases {P : List UInt8 → Prop} (hnil : P []) (hplus : ∀ l, P l → P (plus :: l))
    (hescape : ∀ x y b l, escaped (x :: y :: l) = some b → P l → P (percent :: x :: y :: l))
    (hother : ∀ x l, x ≠ plus → (x = percent → escaped l = none) → P l → P (x :: l))
    (l : List UInt8) : P l := by
  -- an escape is three bytes long, so the induction is on the length
  induction h : l.length using Nat.strong_induction_on generalizing l with
  | _ n ih =>
      rcases l with - | ⟨x, l⟩
      · exact hnil
      have hl : P l := ih l.length (by rw [← h]; exact Nat.lt_succ_self _) l rfl
      by_cases hx : x = plus
      · rw [hx]
        exact hplus l hl
      · by_cases hesc : x = percent ∧ (escaped l).isSome = true
        · obtain ⟨rfl, hsome⟩ := hesc
          obtain ⟨b, hb⟩ := Option.isSome_iff_exists.mp hsome
          obtain ⟨y, z, rest, rfl⟩ := exists_of_escaped hb
          refine hescape y z b rest hb (ih rest.length ?_ rest rfl)
          rw [← h]
          simp only [List.length_cons]
          omega
        · refine hother x l hx (fun hp => ?_) hl
          exact Option.not_isSome_iff_eq_none.mp fun hsome => hesc ⟨hp, hsome⟩

theorem length_decode_le (l : List UInt8) : (decode l).length ≤ l.length := by
  induction l using decode_cases with
  | hnil => exact le_rfl
  | hplus l ih =>
      rw [decode_plus, List.length_cons, List.length_cons]
      exact Nat.succ_le_succ ih
  | hescape x y b l h ih =>
      rw [decode_escape h]
      simp only [List.length_cons]
      omega
  | hother x l hplus h ih =>
      rw [decode_other hplus h, List.length_cons, List.length_cons]
      exact Nat.succ_le_succ ih

theorem decode_eq_nil : decode l = [] ↔ l = [] := by
  refine ⟨fun h => ?_, fun h => by rw [h]; rfl⟩
  induction l using decode_cases with
  | hnil => rfl
  | hplus l ih => rw [decode_plus] at h; cases h
  | hescape x y b l hb ih => rw [decode_escape hb] at h; cases h
  | hother x l hplus hx ih => rw [decode_other hplus hx] at h; cases h

/-- A byte that is not a digit ends what is before it. -/
theorem decode_append (h : hex x = none) : decode (u ++ x :: v) = decode u ++ decode (x :: v) := by
  induction u using decode_cases with
  | hnil => rfl
  | hplus u ih => rw [List.cons_append, decode_plus, decode_plus, ih, List.cons_append]
  | hescape y z b u hb ih =>
      have hb' : escaped (y :: z :: (u ++ x :: v)) = some b := hb
      rw [List.cons_append, List.cons_append, List.cons_append, decode_escape hb, decode_escape hb',
        ih, List.cons_append]
  | hother y u hplus hy ih =>
      have hy' : y = percent → escaped (u ++ x :: v) = none := fun hp =>
        (escaped_append h).trans (hy hp)
      rw [List.cons_append, decode_other hplus hy, decode_other hplus hy', ih, List.cons_append]

/-- **What is read as it is**: the texts without `+` and without escapes. -/
theorem decode_eq_self_iff : decode l = l ↔ plus ∉ l ∧ ¬ Escapes l := by
  induction l using decode_cases with
  | hnil =>
      refine ⟨fun _ => ⟨List.not_mem_nil, ?_⟩, fun _ => rfl⟩
      rintro ⟨u, v, huv, -⟩
      exact absurd huv.symm (by simp)
  | hplus l ih =>
      rw [decode_plus]
      refine ⟨fun h => ?_, fun h => absurd List.mem_cons_self h.1⟩
      exact absurd (List.cons.inj h).1 (by decide)
  | hescape x y b l hb ih =>
      rw [decode_escape hb]
      constructor
      · intro h
        -- the text gets shorter
        have hlen := congrArg List.length h
        have hle := length_decode_le l
        simp only [List.length_cons] at hlen
        omega
      · rintro ⟨-, hesc⟩
        exact absurd ⟨[], x :: y :: l, rfl, by rw [hb]; rfl⟩ hesc
  | hother x l hplus hx ih =>
      rw [decode_other hplus hx, List.cons.injEq, eq_self_iff_true, true_and, ih, List.mem_cons,
        not_or]
      constructor
      · rintro ⟨hl, hesc⟩
        refine ⟨⟨Ne.symm hplus, hl⟩, ?_⟩
        rintro ⟨u, v, huv, hsome⟩
        rcases u with - | ⟨y, u⟩
        · obtain ⟨rfl, rfl⟩ := List.cons.inj huv
          rw [hx rfl] at hsome
          cases hsome
        · exact hesc ⟨u, v, (List.cons.inj huv).2, hsome⟩
      · rintro ⟨⟨-, hl⟩, hesc⟩
        refine ⟨hl, ?_⟩
        rintro ⟨u, v, rfl, hsome⟩
        exact hesc ⟨x :: u, v, rfl, hsome⟩

end Decode

/-! ### Parameters -/

/-- A name and its value. -/
def pair (l : List UInt8) : List UInt8 × List UInt8 :=
  (decode (l.takeWhile (· ≠ equals)), decode (l.dropWhile (· ≠ equals)).tail)

/-- The pairs of a query: what stands between the `&`, if it is not empty. -/
def params (l : List UInt8) : List (List UInt8 × List UInt8) :=
  ((l.splitOn amp).filter (· ≠ [])).map pair

section Params

variable {l a b n v : List UInt8}

theorem takeWhile_of_notMem {x : UInt8} (h : x ∉ l) (r : List UInt8) :
    (l ++ x :: r).takeWhile (· ≠ x) = l := by
  rw [List.takeWhile_append_of_pos, List.takeWhile_cons_of_neg (by simp), List.append_nil]
  intro y hy
  simp only [ne_eq, decide_not, Bool.not_eq_true', decide_eq_false_iff_not]
  rintro rfl
  exact h hy

theorem dropWhile_of_notMem {x : UInt8} (h : x ∉ l) (r : List UInt8) :
    (l ++ x :: r).dropWhile (· ≠ x) = x :: r := by
  rw [List.dropWhile_append_of_pos, List.dropWhile_cons_of_neg (by simp)]
  intro y hy
  simp only [ne_eq, decide_not, Bool.not_eq_true', decide_eq_false_iff_not]
  rintro rfl
  exact h hy

theorem pair_append (h : equals ∉ n) (v : List UInt8) :
    pair (n ++ equals :: v) = (decode n, decode v) := by
  rw [pair, takeWhile_of_notMem h, dropWhile_of_notMem h, List.tail_cons]

theorem pair_of_notMem (h : equals ∉ n) : pair n = (decode n, []) := by
  have hall : ∀ y ∈ n, decide (y ≠ equals) = true := by
    intro y hy
    rw [decide_eq_true_eq]
    rintro rfl
    exact h hy
  rw [pair, List.takeWhile_eq_self_iff.mpr hall, List.dropWhile_eq_nil_iff.mpr hall]
  rfl

theorem params_append (a b : List UInt8) : params (a ++ amp :: b) = params a ++ params b := by
  rw [params, List.splitOn_append_cons_self, List.filter_append, List.map_append]
  rfl

theorem params_nil : params [] = [] := rfl

theorem params_single (h : amp ∉ l) (hl : l ≠ []) : params l = [pair l] := by
  rw [params, List.splitOn_eq_singleton h, List.filter_cons_of_pos (by simpa using hl)]
  rfl

/-- What stands behind the last `&`. -/
theorem exists_last (l : List UInt8) : amp ∉ l ∨ ∃ a z, l = a ++ amp :: z ∧ amp ∉ z := by
  induction l with
  | nil => exact .inl List.not_mem_nil
  | cons x l ih =>
      rcases ih with h | ⟨a, z, rfl, hz⟩
      · by_cases hx : x = amp
        · exact .inr ⟨[], l, by rw [hx]; rfl, h⟩
        · refine .inl fun hmem => ?_
          exact (List.mem_cons.mp hmem).elim (fun he => hx he.symm) h
      · exact .inr ⟨x :: a, z, rfl, hz⟩

/-- A text without `&` that is added to a query changes its last parameter only. -/
theorem params_extended {u : List UInt8} (hamp : amp ∉ u) (hu : u ≠ []) (q : List UInt8) :
    ∃ ps z, amp ∉ z ∧ params q = ps ++ params z ∧ params (q ++ u) = ps ++ [pair (z ++ u)] := by
  have hsingle : ∀ z, amp ∉ z → params (z ++ u) = [pair (z ++ u)] := by
    intro z hz
    refine params_single (fun hmem => ?_) (List.append_ne_nil_of_right_ne_nil z hu)
    exact (List.mem_append.mp hmem).elim hz hamp
  rcases exists_last q with hq | ⟨a, z, rfl, hz⟩
  · exact ⟨[], q, hq, rfl, hsingle q hq⟩
  · refine ⟨params a, z, hz, params_append a z, ?_⟩
    rw [List.append_assoc, List.cons_append, params_append, hsingle z hz]

end Params

/-! ### Queries -/

/-- What stands between the first `?` and the first `#`. -/
def query (l : List UInt8) : List UInt8 :=
  ((l.takeWhile (· ≠ hash)).dropWhile (· ≠ question)).tail

section Query

variable {r t q : List UInt8}

/-- A fragment ends the query. -/
theorem query_append_of_hash (h : hash ∈ r) (t : List UInt8) : query (r ++ t) = query r := by
  obtain ⟨a, b, rfl, ha⟩ := List.eq_append_cons_of_mem h
  rw [query, query, List.append_assoc, List.cons_append, takeWhile_of_notMem ha,
    takeWhile_of_notMem ha]

theorem takeWhile_hash (h : hash ∉ r) (t : List UInt8) :
    (r ++ t).takeWhile (· ≠ hash) = r ++ t.takeWhile (· ≠ hash) := by
  rw [List.takeWhile_append_of_pos]
  intro y hy
  rw [decide_eq_true_eq]
  rintro rfl
  exact h hy

/-- What is added to a query that is there already. -/
theorem query_append (hhash : hash ∉ r) (h : question ∈ r) (t : List UInt8) :
    query (r ++ t) = query r ++ t.takeWhile (· ≠ hash) := by
  obtain ⟨a, b, rfl, ha⟩ := List.eq_append_cons_of_mem h
  have hr : (a ++ question :: b).takeWhile (· ≠ hash) = a ++ question :: b := by
    have hself := takeWhile_hash hhash []
    rwa [List.append_nil, List.takeWhile_nil, List.append_nil] at hself
  rw [query, query, takeWhile_hash hhash, hr, dropWhile_of_notMem ha, List.append_assoc,
    List.cons_append, dropWhile_of_notMem ha, List.tail_cons, List.tail_cons]

/-- The query of a location that has had none. -/
theorem query_append_question (hhash : hash ∉ r) (h : question ∉ r) (t : List UInt8) :
    query (r ++ question :: t) = t.takeWhile (· ≠ hash) := by
  rw [query, takeWhile_hash hhash, List.takeWhile_cons_of_pos (by decide), dropWhile_of_notMem h,
    List.tail_cons]

theorem query_of_notMem (h : question ∉ r) : query r = [] := by
  have hall : ∀ y ∈ r.takeWhile (· ≠ hash), decide (y ≠ question) = true := by
    intro y hy
    rw [decide_eq_true_eq]
    rintro rfl
    exact h ((List.takeWhile_prefix _).subset hy)
  rw [query, List.dropWhile_eq_nil_iff.mpr hall]
  rfl

end Query

end FormUrl
