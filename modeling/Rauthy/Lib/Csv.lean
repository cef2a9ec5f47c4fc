/-
Rauthy/Lib/Csv.lean

Texts that hold a list: cells with a separator `c` between them, which `List.splitOn`
reads back.  The texts here are edited as texts: every part `p` is replaced by `q`,
wherever it stands.  The question is always what such an edit does to the cells.

  * `splitOn_replace`: a part without a separator is replaced cell by cell;
  * `splitOn_replace_ends`: a name is removed with the separator behind it;
  * `splitOn_replace_starts`: a name is removed with the separator before it.

The last two say exactly when this removes the cells that are the name, and no more.
-/
import Mathlib.Data.List.DropRight
import Mathlib.Data.List.Infix
import Mathlib.Tactic.Common

namespace Csv

variable {α : Type} [DecidableEq α]

/-! ### Replacing parts of a list -/

/-- The rest of the list after `k` more elements of a part that was found. -/
def replaceFrom (p q : List α) : ℕ → List α → List α
  | _, [] => []
  | k + 1, _ :: xs => replaceFrom p q k xs
  | 0, x :: xs =>
      if p.isPrefixOf (x :: xs) then q ++ replaceFrom p q (p.length - 1) xs
      else x :: replaceFrom p q 0 xs

/-- The parts `p`, found from the left and without overlaps, replaced by `q`.  The empty
part is found around every element. -/
def replace (p q xs : List α) : List α :=
  if p = [] then xs.flatMap (fun x => q ++ [x]) ++ q else replaceFrom p q 0 xs

theorem replaceFrom_eq_drop (p q : List α) (k : ℕ) (xs : List α) :
    replaceFrom p q k xs = replaceFrom p q 0 (xs.drop k) := by
  induction xs generalizing k with
  | nil => simp [replaceFrom]
  | cons x xs ih =>
      rcases k with - | k
      · rw [List.drop_zero]
      · rw [replaceFrom, List.drop_succ_cons]
        exact ih k

section Replace

variable {p q xs : List α}

theorem replace_nil (hp : p ≠ []) : replace p q [] = [] := by
  rw [replace, if_neg hp, replaceFrom]

/-- A part that is found. -/
theorem replace_found (hp : p ≠ []) (q xs : List α) :
    replace p q (p ++ xs) = q ++ replace p q xs := by
  rw [replace, if_neg hp, replace, if_neg hp]
  rcases p with - | ⟨x, p⟩
  · exact absurd rfl hp
  · have hpre : (x :: p).isPrefixOf (x :: (p ++ xs)) = true :=
      List.isPrefixOf_iff_prefix.mpr (List.prefix_append (x :: p) xs)
    rw [List.cons_append, replaceFrom, if_pos hpre, replaceFrom_eq_drop]
    simp

/-- An element at which none is. -/
theorem replace_other (hp : p ≠ []) {x : α} (h : ¬ p <+: x :: xs) :
    replace p q (x :: xs) = x :: replace p q xs := by
  have hpre : ¬ p.isPrefixOf (x :: xs) = true := fun hpre => h (List.isPrefixOf_iff_prefix.mp hpre)
  rw [replace, if_neg hp, replace, if_neg hp, replaceFrom, if_neg hpre]

/-- Induction along the search for `p`. -/
theorem search_induction (hp : p ≠ []) {motive : List α → Prop} (nil : motive [])
    (found : ∀ xs, motive xs → motive (p ++ xs))
    (other : ∀ x xs, ¬ p <+: x :: xs → motive xs → motive (x :: xs)) (xs : List α) : motive xs := by
  induction h : xs.length using Nat.strong_induction_on generalizing xs with
  | _ n ih =>
      subst h
      rcases xs with - | ⟨x, xs⟩
      · exact nil
      · by_cases hpre : p <+: x :: xs
        · obtain ⟨ys, hys⟩ := hpre
          rw [← hys]
          refine found ys (ih ys.length ?_ ys rfl)
          have hlen := congrArg List.length hys
          have hpos := List.length_pos_of_ne_nil hp
          rw [List.length_append] at hlen
          omega
        · exact other x xs hpre (ih xs.length (by simp) xs rfl)

/-- A part that is not there. -/
theorem replace_eq_self (hp : p ≠ []) (h : ¬ p <:+: xs) : replace p q xs = xs := by
  induction xs with
  | nil => exact replace_nil hp
  | cons x xs ih =>
      rw [List.infix_cons_iff, not_or] at h
      rw [replace_other hp h.1, ih h.2]

/-- Cutting parts out adds nothing. -/
theorem mem_of_mem_replace_nil (hp : p ≠ []) {x : α} (hx : x ∈ replace p [] xs) : x ∈ xs := by
  induction xs using search_induction hp with
  | nil => rwa [replace_nil hp] at hx
  | found xs ih =>
      rw [replace_found hp, List.nil_append] at hx
      exact List.mem_append_right p (ih hx)
  | other y xs hy ih =>
      rw [replace_other hp hy, List.mem_cons] at hx
      rcases hx with rfl | hx
      · exact List.mem_cons_self
      · exact List.mem_cons_of_mem y (ih hx)

theorem replace_self (hp : p ≠ []) (q : List α) : replace p q p = q := by
  have h := replace_found hp q []
  rwa [List.append_nil, replace_nil hp, List.append_nil] at h

/-- Replacing a part by itself. -/
theorem replace_id (hp : p ≠ []) (xs : List α) : replace p p xs = xs := by
  induction xs using search_induction hp with
  | nil => exact replace_nil hp
  | found xs ih => rw [replace_found hp, ih]
  | other x xs hx ih => rw [replace_other hp hx, ih]

/-- How often each kind of element occurs: the same number `k` of parts has gone and come. -/
theorem exists_countP_replace (hp : p ≠ []) (q xs : List α) :
    ∃ k, (0 < k ↔ p <:+: xs) ∧ ∀ P : α → Bool,
      (replace p q xs).countP P + k * p.countP P = xs.countP P + k * q.countP P := by
  induction xs using search_induction hp with
  | nil =>
      refine ⟨0, ?_, fun P => ?_⟩
      · rw [List.infix_nil]
        exact ⟨fun h => absurd h (lt_irrefl 0), fun h => absurd h hp⟩
      · rw [replace_nil hp]
        simp
  | found xs ih =>
      obtain ⟨k, -, hk⟩ := ih
      refine ⟨k + 1, ?_, fun P => ?_⟩
      · exact ⟨fun _ => (List.prefix_append p xs).isInfix, fun _ => Nat.succ_pos k⟩
      · have h := hk P
        rw [replace_found hp, List.countP_append, List.countP_append]
        rw [Nat.add_mul, Nat.add_mul]
        omega
  | other x xs hx ih =>
      obtain ⟨k, hpos, hk⟩ := ih
      refine ⟨k, ?_, fun P => ?_⟩
      · rw [List.infix_cons_iff, hpos]
        exact ⟨.inr, fun h => h.resolve_left hx⟩
      · have h := hk P
        rw [replace_other hp hx, List.countP_cons, List.countP_cons]
        omega

/-- An edit shows: if the text stays the same but for elements outside `P`, then `p` was not
there, or nothing has been changed. -/
theorem eq_of_filter_replace (hp : p ≠ []) {P : α → Bool} (hpP : ∀ x ∈ p, P x = true)
    (hqP : ∀ x ∈ q, P x = true) (hin : p <:+: xs)
    (h : (replace p q xs).filter P = xs.filter P) : p = q := by
  have hlen : p.length = q.length := by
    obtain ⟨k, hpos, hk⟩ := exists_countP_replace hp q xs
    have hcount := hk P
    rw [List.countP_eq_length_filter, h, ← List.countP_eq_length_filter,
      List.countP_eq_length.mpr hpP, List.countP_eq_length.mpr hqP] at hcount
    have hk0 := hpos.mpr hin
    exact Nat.eq_of_mul_eq_mul_left hk0 (Nat.add_left_cancel hcount)
  induction xs using search_induction hp with
  | nil => exact absurd (List.infix_nil.mp hin) hp
  | found xs ih =>
      rw [replace_found hp, List.filter_append, List.filter_append, List.filter_eq_self.mpr hpP,
        List.filter_eq_self.mpr hqP] at h
      exact (List.append_inj h hlen.symm).1.symm
  | other x xs hx ih =>
      rw [replace_other hp hx] at h
      refine ih ((List.infix_cons_iff.mp hin).resolve_left hx) ?_
      rw [List.filter_cons, List.filter_cons] at h
      split at h
      · exact List.tail_eq_of_cons_eq h
      · exact h

/-- The case in which all elements count. -/
theorem replace_eq_self_iff (hp : p ≠ []) : replace p q xs = xs ↔ p = q ∨ ¬ p <:+: xs := by
  constructor
  · intro h
    by_cases hin : p <:+: xs
    · have hf : (replace p q xs).filter (fun _ => true) = xs.filter (fun _ => true) := by rw [h]
      exact .inl (eq_of_filter_replace hp (fun _ _ => rfl) (fun _ _ => rfl) hin hf)
    · exact .inr hin
  · rintro (rfl | hin)
    · exact replace_id hp xs
    · exact replace_eq_self hp hin

end Replace

/-! ### Cells -/

section Cells

variable {c : α} {p q a b n xs : List α}
  {l : List (List α)}

/-- Induction over the cells of a text. -/
theorem cell_induction (c : α) {motive : List α → Prop} (last : ∀ a, c ∉ a → motive a)
    (more : ∀ a b, c ∉ a → motive b → motive (a ++ c :: b)) (xs : List α) : motive xs := by
  have key : ∀ xs a, c ∉ a → motive (a ++ xs) := by
    intro xs
    induction xs with
    | nil =>
        intro a ha
        rw [List.append_nil]
        exact last a ha
    | cons x xs ih =>
        intro a ha
        by_cases hx : x = c
        · subst hx
          exact more a xs ha (ih [] (by simp))
        · have hax : c ∉ a ++ [x] := by
            rw [List.mem_append, List.mem_singleton, not_or]
            exact ⟨ha, fun h => hx h.symm⟩
          have h := ih (a ++ [x]) hax
          rwa [List.append_assoc] at h
  exact key xs [] (by simp)

theorem splitOn_cell (ha : c ∉ a) : a.splitOn c = [a] := List.splitOn_eq_singleton ha

theorem splitOn_more (ha : c ∉ a) (b : List α) : (a ++ c :: b).splitOn c = a :: b.splitOn c :=
  List.splitOn_append_cons_self_of_not_mem ha b

/-- No cell has a separator in it. -/
theorem not_mem_of_mem_splitOn (ha : a ∈ xs.splitOn c) : c ∉ a := by
  induction xs using cell_induction c with
  | last b hb =>
      rw [splitOn_cell hb, List.mem_singleton] at ha
      rwa [ha]
  | more b xs hb ih =>
      rw [splitOn_more hb, List.mem_cons] at ha
      rcases ha with rfl | ha
      · exact hb
      · exact ih ha

/-- The cells determine the text. -/
theorem splitOn_inj {ys : List α} : xs.splitOn c = ys.splitOn c ↔ xs = ys := by
  constructor
  · intro h
    have hback : ∀ l : List α, [c].intercalate (l.splitOn c) = l := fun _ =>
      List.intercalate_splitOn c
    rw [← hback xs, h, hback]
  · rintro rfl
    rfl

/-- The elements of a text are those of its cells, and separators. -/
theorem mem_iff_splitOn {x : α} (hx : x ≠ c) : x ∈ xs ↔ ∃ a ∈ xs.splitOn c, x ∈ a := by
  induction xs using cell_induction c with
  | last a ha => rw [splitOn_cell ha]; simp
  | more a b ha ih =>
      rw [splitOn_more ha, List.mem_append, List.mem_cons, ih]
      simp [hx]

/-- There is one cell more than separators. -/
theorem length_splitOn (c : α) (xs : List α) :
    (xs.splitOn c).length = xs.countP (· == c) + 1 := by
  have hzero : ∀ a : List α, c ∉ a → a.countP (· == c) = 0 := by
    intro a ha
    rw [List.countP_eq_zero]
    intro x hx hxc
    rw [beq_iff_eq.mp hxc] at hx
    exact ha hx
  induction xs using cell_induction c with
  | last a ha => rw [splitOn_cell ha, hzero a ha]; rfl
  | more a b ha ih =>
      rw [splitOn_more ha, List.length_cons, ih, List.countP_append, hzero a ha, List.countP_cons]
      simp

omit [DecidableEq α] in
/-- A part without a separator stands in the cell in front, or behind it. -/
theorem prefix_more_iff (hp : c ∉ p) : p <+: a ++ c :: b ↔ p <+: a := by
  constructor
  · rintro ⟨t, ht⟩
    rcases List.append_eq_append_iff.mp ht with ⟨as, rfl, -⟩ | ⟨bs, rfl, hbs⟩
    · exact List.prefix_append p as
    · rcases bs with - | ⟨x, bs⟩
      · rw [List.append_nil]
      · rw [List.cons_append, List.cons.injEq] at hbs
        rw [← hbs.1] at hp
        simp at hp
  · exact fun h => h.trans (List.prefix_append a _)

omit [DecidableEq α] in
theorem infix_more_iff (hp : c ∉ p) : p <:+: a ++ c :: b ↔ p <:+: a ∨ p <:+: b := by
  induction a with
  | nil =>
      rw [List.nil_append, List.infix_cons_iff, List.infix_nil]
      have h : p <+: c :: b ↔ p = [] := by
        have h := prefix_more_iff (a := []) (b := b) hp
        rwa [List.prefix_nil, List.nil_append] at h
      rw [h]
  | cons x a ih =>
      rw [List.cons_append, List.infix_cons_iff, List.infix_cons_iff, ih, or_assoc,
        ← List.cons_append, prefix_more_iff hp]

/-- A part without a separator stands in one of the cells. -/
theorem infix_iff_splitOn (hp : c ∉ p) : p <:+: xs ↔ ∃ a ∈ xs.splitOn c, p <:+: a := by
  induction xs using cell_induction c with
  | last a ha => rw [splitOn_cell ha]; simp
  | more a b ha ih =>
      rw [infix_more_iff hp, splitOn_more ha, ih]
      simp

/-- Such a part is replaced cell by cell. -/
theorem replace_more (hp : p ≠ []) (hc : c ∉ p) (q a b : List α) :
    replace p q (a ++ c :: b) = replace p q a ++ c :: replace p q b := by
  induction a using search_induction hp with
  | nil =>
      have hpre : ¬ p <+: [] ++ c :: b := by
        rw [prefix_more_iff hc, List.prefix_nil]
        exact hp
      rw [replace_nil hp, List.nil_append]
      exact replace_other hp hpre
  | found a ih =>
      rw [List.append_assoc, replace_found hp, ih, replace_found hp, List.append_assoc]
  | other x a hx ih =>
      have hpre : ¬ p <+: x :: (a ++ c :: b) := by
        rw [← List.cons_append, prefix_more_iff hc]
        exact hx
      rw [List.cons_append, replace_other hp hpre, ih, replace_other hp hx, List.cons_append]

theorem not_mem_replace (hp : p ≠ []) (hq : c ∉ q) (hxs : c ∉ xs) : c ∉ replace p q xs := by
  induction xs using search_induction hp with
  | nil => rwa [replace_nil hp]
  | found xs ih =>
      rw [replace_found hp, List.mem_append, not_or]
      exact ⟨hq, ih fun h => hxs (List.mem_append_right p h)⟩
  | other x xs hx ih =>
      rw [replace_other hp hx, List.mem_cons, not_or]
      exact ⟨fun h => hxs (h ▸ List.mem_cons_self), ih fun h => hxs (List.mem_cons_of_mem x h)⟩

theorem splitOn_replace (hp : p ≠ []) (hc : c ∉ p) (hq : c ∉ q) (xs : List α) :
    (replace p q xs).splitOn c = (xs.splitOn c).map (replace p q) := by
  induction xs using cell_induction c with
  | last a ha => rw [splitOn_cell ha, splitOn_cell (not_mem_replace hp hq ha)]; rfl
  | more a b ha ih =>
      rw [replace_more hp hc, splitOn_more (not_mem_replace hp hq ha), splitOn_more ha, ih]
      rfl

/-- **Renaming.**  Replacing the text `p` replaces exactly the cells that are `p`, if and only
if it is in no other cell. -/
theorem splitOn_replace_iff (hp : p ≠ []) (hc : c ∉ p) (hq : c ∉ q) :
    (replace p q xs).splitOn c = (xs.splitOn c).map (fun a => if a = p then q else a) ↔
      p = q ∨ ∀ a ∈ xs.splitOn c, p <:+: a → a = p := by
  rw [splitOn_replace hp hc hq, List.map_inj_left]
  constructor
  · intro h
    by_cases hpq : p = q
    · exact .inl hpq
    · refine .inr fun a ha hin => ?_
      by_contra hne
      have hself := h a ha
      rw [if_neg hne, replace_eq_self_iff hp] at hself
      rcases hself with hself | hself
      · exact hpq hself
      · exact hself hin
  · rintro (rfl | h) a ha
    · rw [replace_id hp]
      split
      · next he => exact he
      · rfl
    · split
      · next he => rw [he, replace_self hp]
      · next hne => exact replace_eq_self hp fun hin => hne (h a ha hin)

/-! ### Removing a name with the separator behind it -/

/-- A cell before the last may end with the name only if it is the name.  If the last cell is
the name itself, then the text of it stays: it has to complete a cell from which the end was
taken, with nothing but copies of the name in between. -/
def EndsOnly (n : List α) : List (List α) → Prop
  | [] => True
  | [a] => a ≠ n
  | a :: b :: l => if a = n ∨ ¬ n <:+ a then EndsOnly n (b :: l) else ∀ d ∈ b :: l, d = n

instance EndsOnly.decidable (n : List α) : (l : List (List α)) → Decidable (EndsOnly n l)
  | [] => inferInstanceAs (Decidable True)
  | [a] => inferInstanceAs (Decidable (a ≠ n))
  | a :: b :: l =>
      have := EndsOnly.decidable n (b :: l)
      inferInstanceAs (Decidable (if a = n ∨ ¬ n <:+ a then EndsOnly n (b :: l) else _))

theorem endsOnly_cons (hl : l ≠ []) :
    EndsOnly n (a :: l) ↔ if a = n ∨ ¬ n <:+ a then EndsOnly n l else ∀ d ∈ l, d = n := by
  rcases l with - | ⟨b, l⟩
  · exact absurd rfl hl
  · rfl

/-- The name with its separator is at the front of a text just if it is the first cell. -/
theorem prefix_sep_iff (hn : c ∉ n) (ha : c ∉ a) : n ++ [c] <+: a ++ c :: b ↔ n = a := by
  constructor
  · rintro ⟨t, ht⟩
    rw [List.append_assoc, List.singleton_append] at ht
    have h := congrArg (List.splitOn c) ht
    rw [splitOn_more hn, splitOn_more ha, List.cons.injEq] at h
    exact h.1
  · rintro rfl
    exact ⟨b, by simp⟩

/-- The name is cut off from the end of a cell, together with the separator. -/
theorem replace_suffix (hn : c ∉ n) (ha : c ∉ a) (b : List α) :
    replace (n ++ [c]) [] (a ++ n ++ c :: b) = a ++ replace (n ++ [c]) [] b := by
  have hne : n ++ [c] ≠ [] := by simp
  induction a with
  | nil =>
      have h := replace_found hne [] b
      rwa [List.append_assoc] at h
  | cons x a ih =>
      rw [List.mem_cons, not_or] at ha
      have hpre : ¬ n ++ [c] <+: x :: (a ++ n ++ c :: b) := by
        have hxan : c ∉ x :: a ++ n := by simp [ha.1, ha.2, hn]
        rw [← List.cons_append, ← List.cons_append, prefix_sep_iff hn hxan]
        intro h
        have hlen := congrArg List.length h
        simp at hlen
        omega
      rw [List.cons_append, List.cons_append, replace_other hne hpre, ih ha.2]
      rfl

/-- A cell that does not end with the name stays. -/
theorem replace_no_suffix (hn : c ∉ n) (ha : c ∉ a) (h : ¬ n <:+ a) (b : List α) :
    replace (n ++ [c]) [] (a ++ c :: b) = a ++ c :: replace (n ++ [c]) [] b := by
  have hne : n ++ [c] ≠ [] := by simp
  induction a with
  | nil =>
      have hpre : ¬ n ++ [c] <+: [] ++ c :: b := by
        rw [prefix_sep_iff hn ha]
        rintro rfl
        exact h (List.suffix_refl [])
      exact replace_other hne hpre
  | cons x a ih =>
      have hpre : ¬ n ++ [c] <+: x :: (a ++ c :: b) := by
        rw [← List.cons_append, prefix_sep_iff hn ha]
        rintro rfl
        exact h (List.suffix_refl _)
      have hxa : c ∉ a := fun hc => ha (List.mem_cons_of_mem x hc)
      rw [List.cons_append, replace_other hne hpre,
        ih hxa fun hs => h (hs.trans (List.suffix_cons x a))]
      rfl

/-- The last cell stays. -/
theorem replace_last (ha : c ∉ a) : replace (n ++ [c]) [] a = a := by
  refine replace_eq_self (by simp) fun h => ha ?_
  exact h.subset (by simp)

/-- Putting elements that are no separators in front of a text. -/
theorem splitOn_append (ha : c ∉ a) (xs : List α) :
    ∃ h t, xs.splitOn c = h :: t ∧ (a ++ xs).splitOn c = (a ++ h) :: t := by
  induction xs using cell_induction c with
  | last b hb =>
      refine ⟨b, [], splitOn_cell hb, splitOn_cell ?_⟩
      rw [List.mem_append, not_or]
      exact ⟨ha, hb⟩
  | more b xs hb ih =>
      refine ⟨b, xs.splitOn c, splitOn_more hb xs, ?_⟩
      rw [← List.append_assoc]
      refine splitOn_more ?_ xs
      rw [List.mem_append, not_or]
      exact ⟨ha, hb⟩

/-- No more cells are left than those that are not the name, and the last one. -/
theorem length_replace_ends_le (hn : c ∉ n) (xs : List α) :
    ((replace (n ++ [c]) [] xs).splitOn c).length ≤
      ((xs.splitOn c).filter (· ≠ n)).length + 1 := by
  induction xs using cell_induction c with
  | last a ha =>
      rw [replace_last ha, splitOn_cell ha]
      simp
  | more a b ha ih =>
      rw [splitOn_more ha, List.filter_cons]
      by_cases hs : n <:+ a
      · obtain ⟨x, rfl⟩ := hs
        have hx : c ∉ x := fun h => ha (List.mem_append_left n h)
        obtain ⟨h, t, hsplit, hadd⟩ := splitOn_append hx (replace (n ++ [c]) [] b)
        rw [replace_suffix hn hx, hadd, List.length_cons]
        rw [hsplit, List.length_cons] at ih
        split
        · rw [List.length_cons]
          omega
        · exact ih
      · have hne : a ≠ n := by
          rintro rfl
          exact hs (List.suffix_refl a)
        rw [replace_no_suffix hn ha hs, splitOn_more ha, if_pos (by simpa using hne)]
        simp only [List.length_cons]
        omega

/-- The text of one copy is left over just if all cells were copies. -/
theorem splitOn_replace_eq_cons_iff (hn : c ∉ n) (xs : List α) :
    (replace (n ++ [c]) [] xs).splitOn c = n :: (xs.splitOn c).filter (· ≠ n) ↔
      ∀ a ∈ xs.splitOn c, a = n := by
  induction xs using cell_induction c with
  | last a ha =>
      rw [replace_last ha, splitOn_cell ha]
      by_cases he : a = n <;> simp [he]
  | more a b ha ih =>
      rw [splitOn_more ha, List.forall_mem_cons]
      by_cases he : a = n
      · subst he
        have h := replace_suffix (a := []) hn (by simp) b
        rw [List.nil_append, List.nil_append] at h
        rw [h, List.filter_cons_of_neg (by simp), ih]
        simp
      · rw [List.filter_cons_of_pos (by simpa using he)]
        refine iff_of_false (fun h => ?_) fun h => he h.1
        by_cases hs : n <:+ a
        · -- two cells more than can be left
          obtain ⟨x, rfl⟩ := hs
          have hx : c ∉ x := fun h => ha (List.mem_append_left n h)
          obtain ⟨d, t, hsplit, hadd⟩ := splitOn_append hx (replace (n ++ [c]) [] b)
          have hle := length_replace_ends_le hn b
          have hlen := congrArg List.length h
          rw [replace_suffix hn hx, hadd] at hlen
          rw [hsplit] at hle
          simp only [List.length_cons] at hlen hle
          omega
        · rw [replace_no_suffix hn ha hs, splitOn_more ha, List.cons.injEq] at h
          exact he h.1

/-- **Removing a name with the separator behind it** removes exactly the cells that are the
name, if and only if the name ends no other. -/
theorem splitOn_replace_ends (hn : c ∉ n) (xs : List α) :
    (replace (n ++ [c]) [] xs).splitOn c = (xs.splitOn c).filter (· ≠ n) ↔
      EndsOnly n (xs.splitOn c) := by
  induction xs using cell_induction c with
  | last a ha =>
      rw [replace_last ha, splitOn_cell ha, EndsOnly]
      by_cases he : a = n <;> simp [he]
  | more a b ha ih =>
      rw [splitOn_more ha, endsOnly_cons (List.splitOn_ne_nil c b)]
      by_cases he : a = n
      · subst he
        have h := replace_suffix (a := []) hn (by simp) b
        rw [List.nil_append, List.nil_append] at h
        rw [h, List.filter_cons_of_neg (by simp), ih, if_pos (.inl rfl)]
      · rw [List.filter_cons_of_pos (by simpa using he)]
        by_cases hs : n <:+ a
        · rw [if_neg (by simp [he, hs]), ← splitOn_replace_eq_cons_iff hn]
          obtain ⟨x, rfl⟩ := hs
          have hx : c ∉ x := fun h => ha (List.mem_append_left n h)
          obtain ⟨d, t, hsplit, hadd⟩ := splitOn_append hx (replace (n ++ [c]) [] b)
          rw [replace_suffix hn hx, hadd, hsplit, List.cons.injEq, List.cons.injEq,
            List.append_cancel_left_eq]
        · rw [if_pos (.inr hs), replace_no_suffix hn ha hs, splitOn_more ha, List.cons.injEq, ih]
          simp

/-! ### Removing a name with the separator before it -/

/-- Where the search starts in a cell, it goes on to the next separator. -/
theorem replace_sep_append (ha : c ∉ a) (xs : List α) :
    replace (c :: n) [] (a ++ xs) = a ++ replace (c :: n) [] xs := by
  induction a with
  | nil => rfl
  | cons x a ih =>
      rw [List.mem_cons, not_or] at ha
      have hpre : ¬ c :: n <+: x :: (a ++ xs) := by
        rw [List.cons_prefix_cons]
        exact fun h => ha.1 h.1
      rw [List.cons_append, replace_other (by simp) hpre, ih ha.2]
      rfl

/-- The name is cut off from the start of the cell behind a separator. -/
theorem replace_sep_found (n xs : List α) :
    replace (c :: n) [] (c :: (n ++ xs)) = replace (c :: n) [] xs :=
  replace_found (by simp) [] xs

theorem replace_sep_other (h : ¬ n <+: xs) :
    replace (c :: n) [] (c :: xs) = c :: replace (c :: n) [] xs := by
  refine replace_other (by simp) ?_
  rw [List.cons_prefix_cons]
  exact fun hc => h hc.2

theorem replace_sep_cell (ha : c ∉ a) : replace (c :: n) [] a = a :=
  replace_eq_self (by simp) fun h => ha (h.subset List.mem_cons_self)

omit [DecidableEq α] in
theorem not_mem_grown {y : List α} (ha : c ∉ a) (hy : c ∉ n ++ y) : c ∉ a ++ y := by
  rw [List.mem_append, not_or] at hy ⊢
  exact ⟨ha, hy.2⟩

/-- A cell that has grown is another one. -/
theorem splitOn_grown_ne {y : List α} (hy : y ≠ []) (hay : c ∉ a ++ y) (xs : List α)
    (l : List (List α)) : (a ++ y ++ xs).splitOn c ≠ a :: l := by
  obtain ⟨d, t, -, hadd⟩ := splitOn_append hay xs
  rw [hadd]
  intro h
  have hlen := congrArg List.length (List.cons.inj h).1
  have hpos := List.length_pos_of_ne_nil hy
  simp only [List.length_append] at hlen
  omega

/-- **Removing a name with the separator before it** removes exactly the cells behind the first
that are the name, if and only if no other of these cells starts with the name. -/
theorem splitOn_replace_starts (hn : c ∉ n) (ha : c ∉ a) (xs : List α) :
    (a ++ replace (c :: n) [] (c :: xs)).splitOn c = a :: (xs.splitOn c).filter (· ≠ n) ↔
      ∀ b ∈ xs.splitOn c, n <+: b → b = n := by
  induction xs using cell_induction c generalizing a with
  | last b hb =>
      rw [splitOn_cell hb]
      by_cases hs : n <+: b
      · obtain ⟨y, rfl⟩ := hs
        have hy : c ∉ y := fun h => hb (List.mem_append_right n h)
        rw [replace_sep_found, replace_sep_cell hy]
        by_cases hnil : y = []
        · subst hnil
          rw [List.append_nil, splitOn_cell ha]
          simp
        · have hne := splitOn_grown_ne hnil (not_mem_grown ha hb) [] (List.filter (· ≠ n) [n ++ y])
          rw [List.append_nil] at hne
          refine iff_of_false hne fun h => hnil ?_
          simpa using h (n ++ y) (by simp) (by simp)
      · have hne : b ≠ n := by
          rintro rfl
          exact hs (List.prefix_refl b)
        rw [replace_sep_other hs, replace_sep_cell hb, splitOn_more ha, splitOn_cell hb,
          List.filter_cons_of_pos (by simpa using hne)]
        simp [hs]
  | more b xs hb ih =>
      rw [splitOn_more hb, List.forall_mem_cons]
      by_cases hs : n <+: b
      · obtain ⟨y, rfl⟩ := hs
        have hy : c ∉ y := fun h => hb (List.mem_append_right n h)
        rw [List.append_assoc, replace_sep_found, replace_sep_append hy, ← List.append_assoc]
        by_cases hnil : y = []
        · subst hnil
          rw [List.append_nil, List.append_nil, List.filter_cons_of_neg (by simp), ih ha]
          simp
        · refine iff_of_false (splitOn_grown_ne hnil (not_mem_grown ha hb) _ _) fun h => hnil ?_
          simpa using h.1 (by simp)
      · have hpre : ¬ n <+: b ++ c :: xs := by rwa [prefix_more_iff hn]
        have hne : b ≠ n := by
          rintro rfl
          exact hs (List.prefix_refl b)
        rw [replace_sep_other hpre, replace_sep_append hb, splitOn_more ha, List.cons.injEq,
          List.filter_cons_of_pos (by simpa using hne), ih hb]
        simp [hs]

/-! ### Removing a name with the separator behind it, and then the name -/

/-- The same for a text that does not start with the name. -/
theorem splitOn_replace_inside_iff (hn : c ∉ n) (hstart : ¬ n <+: xs) :
    (replace (c :: n) [] xs).splitOn c = (xs.splitOn c).filter (· ≠ n) ↔
      ∀ b ∈ (xs.splitOn c).tail, n <+: b → b = n := by
  induction xs using cell_induction c with
  | last a ha =>
      have hne : a ≠ n := fun h => hstart (h ▸ List.prefix_rfl)
      rw [replace_sep_cell ha, splitOn_cell ha, List.filter_cons_of_pos (by simpa using hne)]
      simp
  | more a b ha _ =>
      rw [prefix_more_iff hn] at hstart
      have hne : a ≠ n := fun h => hstart (h ▸ List.prefix_rfl)
      rw [replace_sep_append ha, splitOn_more ha, List.filter_cons_of_pos (by simpa using hne)]
      exact splitOn_replace_starts hn ha b

/-- The cells hold all elements but the separators. -/
theorem length_flatten_splitOn (c : α) (xs : List α) :
    (xs.splitOn c).flatten.length = xs.countP (· != c) := by
  have hall : ∀ a : List α, c ∉ a → a.countP (· != c) = a.length := by
    intro a ha
    rw [List.countP_eq_length]
    intro x hx
    rw [bne_iff_ne]
    rintro rfl
    exact ha hx
  induction xs using cell_induction c with
  | last a ha => rw [splitOn_cell ha, hall a ha]; simp
  | more a b ha ih =>
      rw [splitOn_more ha, List.flatten_cons, List.length_append, ih, List.countP_append, hall a ha,
        List.countP_cons]
      simp

/-- What a list of cells loses with the copies of the name. -/
theorem length_flatten_filter (n : List α) (l : List (List α)) :
    (l.filter (· ≠ n)).flatten.length + l.count n * n.length = l.flatten.length := by
  induction l with
  | nil => simp
  | cons a l ih =>
      rw [List.filter_cons, List.count_cons, List.flatten_cons, List.length_append, Nat.add_mul]
      by_cases he : a = n
      · rw [if_neg (by simpa using he), if_pos (by simpa using he), he]
        omega
      · rw [if_pos (by simpa using he), if_neg (by simpa using he), List.flatten_cons,
          List.length_append]
        omega

theorem length_filter_ne (n : List α) (l : List (List α)) :
    (l.filter (· ≠ n)).length + l.count n = l.length := by
  induction l with
  | nil => rfl
  | cons a l ih =>
      rw [List.filter_cons, List.count_cons]
      by_cases he : a = n <;> simp [he] at ih ⊢ <;> omega

/-- Of a text of copies of the name, one stays. -/
theorem replace_ends_ne_nil (hn0 : n ≠ []) (hn : c ∉ n) (hall : ∀ a ∈ xs.splitOn c, a = n) :
    replace (n ++ [c]) [] xs ≠ [] := by
  intro h
  obtain ⟨k, -, hk⟩ := exists_countP_replace (p := n ++ [c]) (by simp) [] xs
  have hcount : (xs.splitOn c).count n = (xs.splitOn c).length :=
    List.count_eq_length.mpr fun a ha => (hall a ha).symm
  have hfilter : (xs.splitOn c).filter (· ≠ n) = [] := by
    rw [List.filter_eq_nil_iff]
    intro a ha
    simp [hall a ha]
  have hflat := length_flatten_filter n (xs.splitOn c)
  rw [hfilter, hcount, length_flatten_splitOn, length_splitOn] at hflat
  have hsep := hk (· == c)
  have hother := hk (· != c)
  have hn1 : n.countP (· == c) = 0 := by
    rw [List.countP_eq_zero]
    intro x hx hxc
    rw [beq_iff_eq.mp hxc] at hx
    exact hn hx
  have hn2 : n.countP (· != c) = n.length := by
    rw [List.countP_eq_length]
    intro x hx
    rw [bne_iff_ne]
    rintro rfl
    exact hn hx
  rw [h, List.countP_append, hn1] at hsep
  rw [h, List.countP_append, hn2] at hother
  have hpos := List.length_pos_of_ne_nil hn0
  -- all separators have gone, each with one copy, but there is one copy more
  simp at hsep hother hflat
  rw [← hflat, Nat.add_mul, ← hsep] at hother
  omega

/-- A text in which only copies end with the name: the last cell is none of them. -/
theorem EndsOnly.getLast? (h : EndsOnly n l) (hl : ∀ a ∈ l, n <:+ a → a = n) :
    l.getLast? ≠ some n := by
  induction l with
  | nil => simp
  | cons a l ih =>
      rcases l with - | ⟨b, l⟩
      · simpa [EndsOnly] using h
      · rw [List.getLast?_cons_cons]
        have hif : a = n ∨ ¬ n <:+ a := by
          by_cases hs : n <:+ a
          · exact .inl (hl a List.mem_cons_self hs)
          · exact .inr hs
        rw [endsOnly_cons (by simp), if_pos hif] at h
        exact ih h fun d hd => hl d (List.mem_cons_of_mem a hd)

theorem endsOnly_of_getLast? (hlast : l.getLast? ≠ some n) (hl : ∀ a ∈ l, n <:+ a → a = n) :
    EndsOnly n l := by
  induction l with
  | nil => trivial
  | cons a l ih =>
      rcases l with - | ⟨b, l⟩
      · simpa [EndsOnly] using hlast
      · rw [List.getLast?_cons_cons] at hlast
        have hif : a = n ∨ ¬ n <:+ a := by
          by_cases hs : n <:+ a
          · exact .inl (hl a List.mem_cons_self hs)
          · exact .inr hs
        rw [endsOnly_cons (by simp), if_pos hif]
        exact ih hlast fun d hd => hl d (List.mem_cons_of_mem a hd)

/-- **Removing a name with the separator behind it, and then what is left of it**: exactly the
cells that are the name go, if and only if it is in no other cell and not the last one. -/
theorem splitOn_replace_twice (hn0 : n ≠ []) (hn : c ∉ n) (xs : List α) :
    (replace n [] (replace (n ++ [c]) [] xs)).splitOn c = (xs.splitOn c).filter (· ≠ n) ↔
      (∀ a ∈ xs.splitOn c, n <:+: a → a = n) ∧ (xs.splitOn c).getLast? ≠ some n := by
  constructor
  · intro h
    -- as many parts have been removed as there are copies, all with a separator
    obtain ⟨k₁, -, hk₁⟩ := exists_countP_replace (p := n ++ [c]) (by simp) [] xs
    obtain ⟨k₂, hpos₂, hk₂⟩ := exists_countP_replace hn0 [] (replace (n ++ [c]) [] xs)
    have hsep : n.countP (· == c) = 0 := by
      rw [List.countP_eq_zero]
      intro x hx hxc
      rw [beq_iff_eq.mp hxc] at hx
      exact hn hx
    have hall : n.countP (· != c) = n.length := by
      rw [List.countP_eq_length]
      intro x hx
      rw [bne_iff_ne]
      rintro rfl
      exact hn hx
    have hcells : k₁ = (xs.splitOn c).count n := by
      have h₁ := hk₁ (· == c)
      have h₂ := hk₂ (· == c)
      have hl := congrArg List.length h
      have hf := length_filter_ne n (xs.splitOn c)
      rw [length_splitOn] at hl
      rw [length_splitOn] at hf
      simp only [List.countP_append, hsep, List.countP_nil, List.countP_cons, beq_self_eq_true,
        if_true, Nat.mul_zero, Nat.mul_one, Nat.zero_add, Nat.add_zero] at h₁ h₂
      omega
    have hrest : k₂ = 0 := by
      have h₁ := hk₁ (· != c)
      have h₂ := hk₂ (· != c)
      have hl : (List.splitOn c (replace n [] (replace (n ++ [c]) [] xs))).flatten.length =
          ((xs.splitOn c).filter (· ≠ n)).flatten.length := by rw [h]
      have hf := length_flatten_filter n (xs.splitOn c)
      rw [length_flatten_splitOn] at hl hf
      rw [← hcells] at hf
      simp only [List.countP_append, hall, List.countP_nil, List.countP_cons, bne_self_eq_false,
        Bool.false_eq_true, if_false, Nat.mul_zero, Nat.add_zero] at h₁ h₂
      have hmul : k₂ * n.length = 0 := by omega
      exact (Nat.mul_eq_zero.mp hmul).resolve_right
        fun h0 => hn0 (List.eq_nil_of_length_eq_zero h0)
    have hnot : ¬ n <:+: replace (n ++ [c]) [] xs := by
      rw [← hpos₂, hrest]
      exact lt_irrefl 0
    rw [replace_eq_self hn0 hnot] at h
    have honly : ∀ a ∈ xs.splitOn c, n <:+: a → a = n := by
      intro a ha hin
      by_contra hne
      refine hnot ((infix_iff_splitOn hn).mpr ⟨a, ?_, hin⟩)
      rw [h]
      exact List.mem_filter.mpr ⟨ha, by simpa using hne⟩
    have hends := (splitOn_replace_ends hn xs).mp h
    exact ⟨honly, hends.getLast? fun a ha hs => honly a ha hs.isInfix⟩
  · rintro ⟨honly, hlast⟩
    have hends : EndsOnly n (xs.splitOn c) :=
      endsOnly_of_getLast? hlast fun a ha hs => honly a ha hs.isInfix
    have h := (splitOn_replace_ends hn xs).mpr hends
    have hnot : ¬ n <:+: replace (n ++ [c]) [] xs := by
      rw [infix_iff_splitOn hn, h]
      rintro ⟨a, ha, hin⟩
      obtain ⟨ha, hne⟩ := List.mem_filter.mp ha
      exact absurd (honly a ha hin) (by simpa using hne)
    rw [replace_eq_self hn0 hnot, h]

/-- Of a text of copies, nothing is left. -/
theorem replace_twice_of_all (hn0 : n ≠ []) (hn : c ∉ n) (hall : ∀ a ∈ xs.splitOn c, a = n) :
    replace n [] (replace (n ++ [c]) [] xs) = [] := by
  induction xs using cell_induction c with
  | last a ha =>
      obtain rfl : a = n := hall a (by rw [splitOn_cell ha]; exact List.mem_cons_self)
      rw [replace_last ha, replace_self hn0]
  | more a b ha ih =>
      rw [splitOn_more ha, List.forall_mem_cons] at hall
      obtain ⟨rfl, hb⟩ := hall
      have hfound := replace_found (p := a ++ [c]) (by simp) [] b
      rw [List.append_assoc, List.singleton_append, List.nil_append] at hfound
      rw [hfound]
      exact ih hb

end Cells

/-! ### Blanks around the cells -/

section Blanks

variable {W : α → Bool} {c : α} {p q m u v xs ys : List α}

/-- The list without the blanks at both ends. -/
def trim (W : α → Bool) (xs : List α) : List α := (xs.dropWhile W).rdropWhile W

omit [DecidableEq α] in
theorem trim_append (hu : ∀ x ∈ u, W x = true) (hm : ∀ x ∈ m, W x = false)
    (hv : ∀ x ∈ v, W x = true) : trim W (u ++ m ++ v) = m := by
  have hleft : (u ++ m ++ v).dropWhile W = (m ++ v).dropWhile W := by
    rw [List.append_assoc, List.dropWhile_append_of_pos hu]
  have hright : (m ++ v).rdropWhile W = m := by
    rw [List.rdropWhile, List.reverse_append, List.dropWhile_append_of_pos (by simpa using hv)]
    rcases hrev : m.reverse with - | ⟨x, l⟩
    · rw [List.reverse_eq_nil_iff] at hrev
      rw [hrev]
      rfl
    · have hx : W x = false := hm x (by rw [← List.mem_reverse, hrev]; exact List.mem_cons_self)
      rw [List.dropWhile_cons_of_neg (by simp [hx]), ← hrev, List.reverse_reverse]
  rw [trim, hleft]
  rcases m with - | ⟨x, m⟩
  · rw [List.nil_append, List.dropWhile_eq_nil_iff.mpr hv]
    rfl
  · rw [List.cons_append, List.dropWhile_cons_of_neg (by simp [hm x List.mem_cons_self]),
      ← List.cons_append]
    exact hright

omit [DecidableEq α] in
theorem trim_of_no_blank (hm : ∀ x ∈ m, W x = false) : trim W m = m := by
  have h := trim_append (u := []) (v := []) (by simp) hm (by simp)
  rwa [List.nil_append, List.append_nil] at h

omit [DecidableEq α] in
theorem exists_trim (W : α → Bool) (xs : List α) : ∃ u v, (∀ x ∈ u, W x = true) ∧
    (∀ x ∈ v, W x = true) ∧ xs = u ++ trim W xs ++ v := by
  refine ⟨xs.takeWhile W, (xs.dropWhile W).rtakeWhile W, fun x hx => List.mem_takeWhile_imp hx,
    fun x hx => ?_, ?_⟩
  · rw [List.rtakeWhile, List.mem_reverse] at hx
    exact List.mem_takeWhile_imp hx
  · rw [trim, List.append_assoc, List.rdropWhile_append_rtakeWhile, List.takeWhile_append_dropWhile]

omit [DecidableEq α] in
theorem trim_trim (W : α → Bool) (xs : List α) : trim W (trim W xs) = trim W xs := by
  have hhead : (trim W xs).dropWhile W = trim W xs := by
    rw [List.dropWhile_eq_self_iff]
    intro hl
    have hpre : trim W xs <+: xs.dropWhile W := List.rdropWhile_prefix W _
    rw [hpre.getElem hl]
    exact List.dropWhile_get_zero_not _ _ _
  have hidem := List.rdropWhile_idempotent W (xs.dropWhile W)
  rw [trim, hhead]
  exact hidem

omit [DecidableEq α] in
theorem filter_trim (W : α → Bool) (xs : List α) :
    (trim W xs).filter (fun x => !W x) = xs.filter fun x => !W x := by
  obtain ⟨u, v, hu, hv, hxs⟩ := exists_trim W xs
  have hblank : ∀ l : List α, (∀ x ∈ l, W x = true) → l.filter (fun x => !W x) = [] := by
    intro l hl
    rw [List.filter_eq_nil_iff]
    intro x hx
    simp [hl x hx]
  conv_rhs => rw [hxs]
  rw [List.filter_append, List.filter_append, hblank u hu, hblank v hv, List.nil_append,
    List.append_nil]

/-- What is kept of a text is what is kept of its cells. -/
theorem filter_eq_intercalate {P : α → Bool} (hc : P c = true) (xs : List α) :
    xs.filter P = [c].intercalate ((xs.splitOn c).map (List.filter P)) := by
  induction xs using cell_induction c with
  | last a ha => rw [splitOn_cell ha]; simp
  | more a b ha ih =>
      rw [splitOn_more ha, List.filter_append, List.filter_cons_of_pos hc, ih]
      obtain ⟨d, l, hsplit⟩ := List.exists_cons_of_ne_nil (List.splitOn_ne_nil c b)
      rw [hsplit]
      simp [List.intercalate]

/-- Trimmed cells are enough to know a text but for its blanks. -/
theorem filter_eq_of_trim (hc : W c = false)
    (h : (xs.splitOn c).map (trim W) = (ys.splitOn c).map (trim W)) :
    xs.filter (fun x => !W x) = ys.filter fun x => !W x := by
  have hcells : ∀ zs : List α, (zs.splitOn c).map (List.filter fun x => !W x) =
      ((zs.splitOn c).map (trim W)).map (List.filter fun x => !W x) := by
    intro zs
    rw [List.map_map]
    refine List.map_congr_left fun a _ => ?_
    rw [Function.comp_apply, filter_trim]
  rw [filter_eq_intercalate (c := c) (by simp [hc]), filter_eq_intercalate (c := c) (by simp [hc]),
    hcells, hcells, h]

/-- A part that begins after the blanks. -/
theorem replace_blanks (hp : p ≠ []) (hpW : ∀ x ∈ p, W x = false) (hu : ∀ x ∈ u, W x = true)
    (xs : List α) : replace p q (u ++ xs) = u ++ replace p q xs := by
  induction u with
  | nil => rfl
  | cons x u ih =>
      have hpre : ¬ p <+: x :: (u ++ xs) := by
        intro h
        rcases p with - | ⟨y, p⟩
        · exact hp rfl
        · obtain ⟨rfl, -⟩ := List.cons_prefix_cons.mp h
          have hW := hpW y List.mem_cons_self
          rw [hu y List.mem_cons_self] at hW
          cases hW
      rw [List.cons_append, replace_other hp hpre, ih fun y hy => hu y (List.mem_cons_of_mem x hy)]
      rfl

/-- A cell that is the part, up to blanks. -/
theorem trim_replace_of_trim_eq (hp : p ≠ []) (hpW : ∀ x ∈ p, W x = false)
    (hqW : ∀ x ∈ q, W x = false) (h : trim W xs = p) : trim W (replace p q xs) = q := by
  obtain ⟨u, v, hu, hv, hxs⟩ := exists_trim W xs
  have hv' : replace p q v = v := by
    have hnil := replace_blanks (q := q) hp hpW hv []
    rwa [replace_nil hp, List.append_nil] at hnil
  rw [hxs, h, List.append_assoc, replace_blanks hp hpW hu, replace_found hp, hv', ← List.append_assoc]
  exact trim_append hu hqW hv

/-- **Renaming in trimmed cells.**  Replacing the text `p` replaces exactly the cells that are `p`,
if and only if it stands nowhere else, and neither `p` nor `q` has a separator in it. -/
theorem trim_splitOn_replace_iff (hp : p ≠ []) (hpW : ∀ x ∈ p, W x = false)
    (hqW : ∀ x ∈ q, W x = false) (hc : W c = false) :
    ((replace p q xs).splitOn c).map (trim W) =
        ((xs.splitOn c).map (trim W)).map (fun a => if a = p then q else a) ↔
      p = q ∨ ¬ p <:+: xs ∨
        c ∉ p ∧ c ∉ q ∧ ∀ a ∈ xs.splitOn c, p <:+: a → trim W a = p := by
  have hshown : ∀ {zs : List α}, p ≠ q → p <:+: zs →
      (replace p q zs).filter (fun x => !W x) ≠ zs.filter fun x => !W x := by
    intro zs hne hin h
    exact hne (eq_of_filter_replace hp (fun x hx => by simp [hpW x hx])
      (fun x hx => by simp [hqW x hx]) hin h)
  have hfound : ∀ {a : List α}, trim W a = p → p <:+: a := by
    intro a ha
    obtain ⟨u, v, -, -, hxs⟩ := exists_trim W a
    rw [ha] at hxs
    exact ⟨u, v, hxs.symm⟩
  have hkeep : ∀ l : List (List α), (∀ a ∈ l, trim W a ≠ p) →
      (l.map (trim W)).map (fun a => if a = p then q else a) = l.map (trim W) := by
    intro l hl
    rw [List.map_map]
    refine List.map_congr_left fun a ha => ?_
    rw [Function.comp_apply, if_neg (hl a ha)]
  constructor
  · intro h
    by_cases hpq : p = q
    · exact .inl hpq
    by_cases hin : p <:+: xs
    swap
    · exact .inr (.inl hin)
    have hcp : c ∉ p := by
      intro hcp
      -- then no cell is the part, but the text has changed
      rw [hkeep _ fun a ha hap => not_mem_of_mem_splitOn ha ((hfound hap).subset hcp)] at h
      exact hshown hpq hin (filter_eq_of_trim hc h)
    have hcq : c ∉ q := by
      intro hcq
      -- then there are more cells than before
      obtain ⟨k, hpos, hk⟩ := exists_countP_replace hp q xs
      have hlen := congrArg List.length h
      rw [List.length_map, List.length_map, List.length_map, length_splitOn, length_splitOn] at hlen
      have hp0 : p.countP (· == c) = 0 := by
        rw [List.countP_eq_zero]
        intro x hx hxc
        rw [beq_iff_eq.mp hxc] at hx
        exact hcp hx
      have hq1 : 0 < q.countP (· == c) := List.countP_pos_iff.mpr ⟨c, hcq, by simp⟩
      have hcount := hk (· == c)
      rw [hp0] at hcount
      have hmul := Nat.mul_pos (hpos.mpr hin) hq1
      omega
    refine .inr (.inr ⟨hcp, hcq, fun a ha hina => ?_⟩)
    by_contra hne
    rw [splitOn_replace hp hcp hcq, List.map_map, List.map_map, List.map_inj_left] at h
    have ha := h a ha
    rw [Function.comp_apply, Function.comp_apply, if_neg hne] at ha
    refine hshown hpq hina ?_
    rw [← filter_trim, ha, filter_trim]
  · rintro (rfl | hin | ⟨hcp, hcq, hcells⟩)
    · rw [replace_id hp]
      refine (List.map_id'' (fun a => ?_) _).symm
      split
      · next he => exact he.symm
      · rfl
    · rw [replace_eq_self hp hin, hkeep _ fun a ha hap => hin ?_]
      have hcp : c ∉ p := fun hcp => not_mem_of_mem_splitOn ha ((hfound hap).subset hcp)
      exact (infix_iff_splitOn hcp).mpr ⟨a, ha, hfound hap⟩
    · rw [splitOn_replace hp hcp hcq, List.map_map, List.map_map, List.map_inj_left]
      intro a ha
      rw [Function.comp_apply, Function.comp_apply]
      by_cases hin : p <:+: a
      · rw [if_pos (hcells a ha hin)]
        exact trim_replace_of_trim_eq hp hpW hqW (hcells a ha hin)
      · rw [replace_eq_self hp hin, if_neg fun he => hin (hfound he)]

end Blanks

end Csv
