/-
Rauthy/Lib/Keyset.lean

Pages of a table in the order of a column, where each request resumes from the last row
of the page before: its id and its value in the column.  The rows from there on are the
ones with a value that is not smaller, less the row itself.

The column need not be unique, and rows with one value can come in any order, a different
one for each request.

Main results:
  * `visits_iff`, the walk ends and has visited every row once, in order, iff each row that
    ends a page has a greater value than the row before it;
  * `visits_through_iff`, the same for answers that show only a part of the rows.
-/
import Mathlib.Data.List.Sort
import Rauthy.Lib.Rows

namespace Rauthy

/-- Requests that each resume from the token of the one before, up to the first answer without
a token: the items of all answers.  `find k tok items tok'` says that request `k` may be
answered so. -/
inductive Walk {T α : Type} (find : ℕ → Option T → List α → Option T → Prop) :
    ℕ → Option T → List α → Prop
  | last {k : ℕ} {tok : Option T} {items : List α} (h : find k tok items none) :
      Walk find k tok items
  | next {k : ℕ} {tok : Option T} {items l : List α} {t : T} (h : find k tok items (some t))
      (hl : Walk find (k + 1) (some t) l) : Walk find k tok (items ++ l)

/-- Two ways of asking for the same walk: tokens that are written as `g` says, and items that
are seen through `view`. -/
theorem walk_map_iff {T T' α β : Type} {find : ℕ → Option T → List α → Option T → Prop}
    {find' : ℕ → Option T' → List β → Option T' → Prop} {g : T → T'} {view : α → β}
    {Good : Option T → Prop}
    (hfind : ∀ k tok, Good tok → ∀ items' tok'', find' k (tok.map g) items' tok'' ↔
      ∃ items tok', find k tok items tok' ∧ items' = items.map view ∧ tok'' = tok'.map g)
    (hgood : ∀ {k tok items tok'}, Good tok → find k tok items tok' → Good tok')
    {k : ℕ} {tok : Option T} (htok : Good tok) {l' : List β} :
    Walk find' k (tok.map g) l' ↔ ∃ l, Walk find k tok l ∧ l' = l.map view := by
  constructor
  · intro hw
    have key : ∀ {k tok'' l'}, Walk find' k tok'' l' → ∀ tok, Good tok → tok'' = tok.map g →
        ∃ l, Walk find k tok l ∧ l' = l.map view := by
      intro k tok'' l' hw
      induction hw with
      | last h =>
          rintro tok htok rfl
          obtain ⟨items, tok', hf, rfl, he⟩ := (hfind _ _ htok _ _).mp h
          rcases tok' with - | t
          · exact ⟨items, .last hf, rfl⟩
          · cases he
      | next h _ ih =>
          rintro tok htok rfl
          obtain ⟨items, tok', hf, rfl, he⟩ := (hfind _ _ htok _ _).mp h
          obtain ⟨l, hl, rfl⟩ := ih tok' (hgood htok hf) he
          rcases tok' with - | t
          · cases he
          · exact ⟨items ++ l, .next hf hl, (List.map_append ..).symm⟩
    exact key hw tok htok rfl
  · rintro ⟨l, hw, rfl⟩
    induction hw with
    | last h => exact .last ((hfind _ _ htok _ _).mpr ⟨_, _, h, rfl, rfl⟩)
    | next h _ ih =>
        rw [List.map_append]
        exact .next ((hfind _ _ htok _ _).mpr ⟨_, _, h, rfl, rfl⟩) (ih (hgood htok h))

namespace Keyset

variable {ρ ι τ : Type} [DecidableEq ι] [LinearOrder τ]

/-- `ORDER BY key` -/
def sorted (key : ρ → τ) (rows : List ρ) : List ρ := rows.insertionSort fun a b => key a ≤ key b

/-- `WHERE key >= $1 AND id != $2`, with a token -/
def after (idOf : ρ → ι) (key : ρ → τ) : Option (ι × τ) → List ρ → List ρ
  | none, rows => rows
  | some (i, x), rows => rows.filter fun r => decide (x ≤ key r) && !decide (idOf r = i)

/-- `LIMIT p` -/
def page (idOf : ρ → ι) (key : ρ → τ) (p : ℕ) (tok : Option (ι × τ)) (rows : List ρ) : List ρ :=
  (sorted key (after idOf key tok rows)).take p

/-- The token that is handed out with a page. -/
def token (idOf : ρ → ι) (key : ρ → τ) (rows : List ρ) : Option (ι × τ) :=
  rows.getLast?.map fun r => (idOf r, key r)

/-- Request `k` is answered from `tables k`. -/
def Find (idOf : ρ → ι) (key : ρ → τ) (tables : ℕ → List ρ) (p k : ℕ) (tok : Option (ι × τ))
    (rows : List ρ) (tok' : Option (ι × τ)) : Prop :=
  rows = page idOf key p tok (tables k) ∧ tok' = token idOf key rows

/-- Where a page ends, the value grows: at the places `p`, `2 * p`, … and at the last one. -/
def StrictBorders (p : ℕ) (keys : List τ) : Prop :=
  ∀ a x y b, keys = a ++ x :: y :: b → p ∣ a.length + 2 ∨ b = [] → x < y

/-- Each row once, in the order of the keys. -/
structure InOrder (key : ρ → τ) (rows l : List ρ) : Prop where
  perm : l.Perm rows
  sorted : l.Pairwise fun a b => key a ≤ key b

section

variable {idOf : ρ → ι} {key : ρ → τ} {tables : ℕ → List ρ} {p k : ℕ} {tok : Option (ι × τ)}
  {rows rows' l v : List ρ} {a b q r : ρ}

theorem perm_sorted : (sorted key rows).Perm rows := List.perm_insertionSort _ _

theorem pairwise_sorted : (sorted key rows).Pairwise fun a b => key a ≤ key b := by
  have : Std.Total fun a b : ρ => key a ≤ key b := ⟨fun a b => le_total _ _⟩
  have : IsTrans ρ fun a b => key a ≤ key b := ⟨fun _ _ _ => le_trans⟩
  exact List.pairwise_insertionSort _ _

theorem after_perm (h : rows.Perm rows') :
    (after idOf key tok rows).Perm (after idOf key tok rows') := by
  rcases tok with - | ⟨i, x⟩
  · exact h
  · exact h.filter _

theorem mem_after {i : ι} {x : τ} :
    q ∈ after idOf key (some (i, x)) rows ↔ q ∈ rows ∧ x ≤ key q ∧ idOf q ≠ i := by
  simp [after]

/-- Two orders of the same rows have the same keys in the same places. -/
theorem InOrder.map_key (h : InOrder key rows l) : l.map key = (Keyset.sorted key rows).map key := by
  have hperm : (l.map key).Perm ((Keyset.sorted key rows).map key) :=
    (h.perm.trans perm_sorted.symm).map key
  have h₁ : (l.map key).Pairwise (· ≤ ·) := List.pairwise_map.mpr h.sorted
  have h₂ : ((Keyset.sorted key rows).map key).Pairwise (· ≤ ·) :=
    List.pairwise_map.mpr pairwise_sorted
  exact hperm.eq_of_pairwise (fun _ _ _ _ => le_antisymm) h₁ h₂

/-! ### The walk -/

variable (idOf key p rows) in
/-- After some pages, `v` in all: the rows from the token on are the ones that are missing, and
the last row has a greater key than those before it. -/
structure Visited (v : List ρ) (tok : Option (ι × τ)) : Prop where
  token : tok = token idOf key v
  rest : (v ++ after idOf key tok rows).Perm rows
  sorted : v.Pairwise fun a b => key a ≤ key b
  border : ∀ v' r, v = v' ++ [r] → ∀ a ∈ v', key a < key r
  full : p ∣ v.length ∨ after idOf key tok rows = []

theorem visited_nil : Visited idOf key p rows [] none where
  token := rfl
  rest := List.Perm.refl _
  sorted := List.Pairwise.nil
  border v' r h := by simp at h
  full := .inl (Nat.dvd_zero p)

omit [DecidableEq ι] [LinearOrder τ] in
theorem token_concat : token idOf key (rows ++ [r]) = some (idOf r, key r) := by
  simp [token]

/-- A page, and the rows that are left over behind it. -/
theorem exists_left (idOf : ρ → ι) (key : ρ → τ) (p : ℕ) (tok : Option (ι × τ))
    (h : rows'.Perm rows) : ∃ left,
      (page idOf key p tok rows' ++ left).Perm (after idOf key tok rows) ∧
      (page idOf key p tok rows' ++ left).Pairwise (fun a b => key a ≤ key b) ∧
      (page idOf key p tok rows').length ≤ p ∧
      ((page idOf key p tok rows').length = p ∨ left = []) := by
  refine ⟨(sorted key (after idOf key tok rows')).drop p, ?_, ?_, List.length_take_le _ _, ?_⟩
  · unfold page
    rw [List.take_append_drop]
    exact perm_sorted.trans (after_perm h)
  · unfold page
    rw [List.take_append_drop]
    exact pairwise_sorted
  · unfold page
    rw [List.length_take, List.drop_eq_nil_iff]
    omega

/-- Nothing is left where a page is empty. -/
theorem after_eq_nil (hp : 1 ≤ p) (h : rows'.Perm rows)
    (hpage : page idOf key p tok rows' = []) : after idOf key tok rows = [] := by
  obtain ⟨left, hperm, -, -, hlen⟩ := exists_left idOf key p tok h
  rw [hpage] at hperm hlen
  rcases hlen with hlen | rfl
  · simp at hlen
    omega
  · exact hperm.symm.eq_nil

/-- What comes after the last row of some rows with smaller keys. -/
theorem after_last (hid : UniqueKey idOf rows) (hperm : (v ++ r :: l).Perm rows)
    (hv : ∀ a ∈ v, key a < key r) (hl : ∀ a ∈ l, key r ≤ key a) :
    (after idOf key (some (idOf r, key r)) rows).Perm l := by
  have hnodup : ((v ++ r :: l).map idOf).Nodup := (hperm.map idOf).nodup_iff.mpr hid
  rw [List.map_append, List.map_cons] at hnodup
  have hr : ∀ a ∈ l, idOf a ≠ idOf r := by
    intro a ha he
    exact (List.nodup_cons.mp (List.nodup_append.mp hnodup).2.1).1 (he ▸ List.mem_map_of_mem ha)
  refine (after_perm hperm.symm).trans (List.Perm.of_eq ?_)
  have hbefore : v.filter (fun a => decide (key r ≤ key a) && !decide (idOf a = idOf r)) = [] := by
    refine List.filter_eq_nil_iff.mpr fun a ha => ?_
    simp [not_le.mpr (hv a ha)]
  have hafter : l.filter (fun a => decide (key r ≤ key a) && !decide (idOf a = idOf r)) = l := by
    refine List.filter_eq_self.mpr fun a ha => ?_
    simp [hl a ha, hr a ha]
  show (v ++ r :: l).filter (fun a => decide (key r ≤ key a) && !decide (idOf a = idOf r)) = l
  rw [List.filter_append, hbefore, List.nil_append, List.filter_cons_of_neg (by simp), hafter]

/-- The rows that are missing come after the visited ones, whatever their order. -/
theorem Visited.inOrder (h : Visited idOf key p rows v tok)
    (hperm : l.Perm (after idOf key tok rows)) (hl : l.Pairwise fun a b => key a ≤ key b) :
    InOrder key rows (v ++ l) where
  perm := (hperm.append_left v).trans h.rest
  sorted := by
    refine List.pairwise_append.mpr ⟨h.sorted, hl, fun a ha b hb => ?_⟩
    rcases List.eq_nil_or_concat' v with rfl | ⟨v', r, rfl⟩
    · simp at ha
    · have hb' := hperm.mem_iff.mp hb
      rw [h.token, token_concat] at hb'
      have hr : key r ≤ key b := (mem_after.mp hb').2.1
      rcases List.mem_append.mp ha with ha | ha
      · exact (h.border v' r rfl a ha).le.trans hr
      · rw [List.mem_singleton.mp ha]
        exact hr

omit [DecidableEq ι] in
/-- Only the row before the last one has to be compared. -/
theorem lt_last (hs : (v ++ [r]).Pairwise fun a b => key a ≤ key b)
    (hlast : ∀ w q, v = w ++ [q] → key q < key r) : ∀ a ∈ v, key a < key r := by
  intro a ha
  rcases List.eq_nil_or_concat' v with rfl | ⟨w, q, rfl⟩
  · simp at ha
  · have hq := hlast w q rfl
    rcases List.mem_append.mp ha with ha' | ha'
    · have hv := (List.pairwise_append.mp hs).1
      exact ((List.pairwise_append.mp hv).2.2 a ha' q (by simp)).trans_lt hq
    · rw [List.mem_singleton.mp ha']
      exact hq

/-- One more page that ends at a border. -/
theorem Visited.step (h : Visited idOf key p rows v tok) (hid : UniqueKey idOf rows)
    (hrows : rows'.Perm rows) (hpage : page idOf key p tok rows' = l ++ [r])
    (hlast : ∀ w q, v ++ l = w ++ [q] → key q < key r) :
    Visited idOf key p rows (v ++ (l ++ [r])) (some (idOf r, key r)) := by
  obtain ⟨left, hperm, hs, -, hlen⟩ := exists_left idOf key p tok hrows
  rw [hpage] at hperm hs hlen
  have hall := h.inOrder hperm hs
  have hsplit : v ++ ((l ++ [r]) ++ left) = (v ++ l) ++ r :: left := by simp
  have hsorted : (v ++ l ++ [r]).Pairwise fun a b => key a ≤ key b := by
    refine List.Pairwise.sublist ?_ hall.sorted
    rw [hsplit, show r :: left = [r] ++ left from rfl, ← List.append_assoc]
    exact List.sublist_append_left _ _
  have hbefore := lt_last hsorted hlast
  have hleft : ∀ a ∈ left, key r ≤ key a := fun a ha =>
    (List.pairwise_append.mp hs).2.2 r (by simp) a ha
  have hafter := after_last hid (hsplit ▸ hall.perm) hbefore hleft
  refine ⟨?_, ?_, ?_, ?_, ?_⟩
  · rw [← List.append_assoc, token_concat]
  · refine (hafter.append_left _).trans ?_
    rw [List.append_assoc]
    exact hall.perm
  · rw [← List.append_assoc]
    exact hsorted
  · intro v' r' he a ha
    rw [← List.append_assoc] at he
    obtain ⟨rfl, hr⟩ := List.append_inj' he rfl
    cases hr
    exact hbefore a ha
  · rcases hlen with hlen | rfl
    · rcases h.full with hd | hd
      · refine .inl ?_
        rw [List.length_append, hlen]
        exact Nat.dvd_add hd (Nat.dvd_refl p)
      · rw [hd] at hperm
        simp at hperm
    · exact .inr hafter.eq_nil

/-- A row with the key of the token, other than the row of the token, comes up again. -/
theorem mem_of_walk (hp : 1 ≤ p) (hid : UniqueKey idOf rows) (htables : ∀ k, (tables k).Perm rows)
    (hw : Walk (Find idOf key tables p) k tok l) {i : ι} (htok : tok = some (i, key q))
    (hq : q ∈ rows) (hi : idOf q ≠ i) : q ∈ l := by
  induction hw generalizing i with
  | @last k tok items h =>
      obtain ⟨rfl, hnone⟩ := h
      rcases List.eq_nil_or_concat' (page idOf key p tok (tables k)) with hnil | ⟨l, r, hl⟩
      · have hempty := after_eq_nil hp (htables k) hnil
        have hmem : q ∈ after idOf key tok rows := by
          rw [htok]
          exact mem_after.mpr ⟨hq, le_refl _, hi⟩
        rw [hempty] at hmem
        cases hmem
      · rw [hl, token_concat] at hnone
        cases hnone
  | @next k tok items l t h _ ih =>
      obtain ⟨rfl, ht⟩ := h
      by_contra hmiss
      rw [List.mem_append, not_or] at hmiss
      obtain ⟨left, hperm, hs, -, hlen⟩ := exists_left idOf key p tok (htables k)
      have hafter : q ∈ after idOf key tok rows := by
        rw [htok]
        exact mem_after.mpr ⟨hq, le_refl _, hi⟩
      -- the row is behind the page, so all of the page has its key
      have hleft : q ∈ left :=
        (List.mem_append.mp (hperm.mem_iff.mpr hafter)).resolve_left hmiss.1
      rcases List.eq_nil_or_concat' (page idOf key p tok (tables k)) with hnil | ⟨l', r, hl⟩
      · rw [hnil] at ht
        cases ht
      · rw [hl, token_concat] at ht
        rw [hl] at hs hperm hmiss
        have hle : key r ≤ key q := (List.pairwise_append.mp hs).2.2 r (by simp) q hleft
        have hge : key q ≤ key r := by
          have hr : r ∈ after idOf key tok rows := hperm.mem_iff.mp (by simp)
          rw [htok] at hr
          exact (mem_after.mp hr).2.1
        refine hmiss.2 (ih (i := idOf r) (ht.trans ?_) ?_)
        · rw [le_antisymm hle hge]
        · have hr : r ∈ rows := by
            have hr : r ∈ after idOf key tok rows := hperm.mem_iff.mp (by simp)
            rw [htok] at hr
            exact (mem_after.mp hr).1
          intro he
          have hqr := hid.inj hq hr he
          exact hmiss.1 (by rw [hqr]; simp)

/-- With strict borders the walk goes on to the end. -/
theorem exists_walk (hp : 1 ≤ p) (hid : UniqueKey idOf rows) (htables : ∀ k, (tables k).Perm rows)
    (hstrict : StrictBorders p ((sorted key rows).map key)) (n : ℕ) :
    ∀ {v tok} k, Visited idOf key p rows v tok → (after idOf key tok rows).length ≤ n →
      ∃ l, Walk (Find idOf key tables p) k tok l ∧ InOrder key rows (v ++ l) := by
  induction n with
  | zero =>
      intro v tok k hv hn
      have hnil : after idOf key tok (tables k) = [] := by
        have hperm : (after idOf key tok (tables k)).Perm (after idOf key tok rows) :=
          after_perm (htables k)
        rw [List.length_eq_zero_iff.mp (Nat.le_zero.mp hn)] at hperm
        exact hperm.eq_nil
      have hpage : page idOf key p tok (tables k) = [] := by
        unfold page
        rw [hnil]
        exact List.take_nil
      refine ⟨[], .last ⟨hpage.symm, rfl⟩, ?_⟩
      exact hv.inOrder (by rw [List.length_eq_zero_iff.mp (Nat.le_zero.mp hn)]) List.Pairwise.nil
  | succ n ih =>
      intro v tok k hv hn
      obtain ⟨left, hperm, hs, -, hlen⟩ := exists_left idOf key p tok (htables k)
      rcases List.eq_nil_or_concat' (page idOf key p tok (tables k)) with hnil | ⟨l, r, hl⟩
      · refine ⟨[], .last ⟨hnil.symm, rfl⟩, ?_⟩
        have hempty := after_eq_nil hp (htables k) hnil
        exact hv.inOrder (by rw [hempty]) List.Pairwise.nil
      · rw [hl] at hperm hs hlen
        have hall := hv.inOrder hperm hs
        have hlast : ∀ w q, v ++ l = w ++ [q] → key q < key r := by
          intro w q he
          have hkeys := hall.map_key
          rw [show v ++ (l ++ [r] ++ left) = w ++ q :: r :: left by
            rw [show v ++ (l ++ [r] ++ left) = (v ++ l) ++ r :: left by simp, he]; simp,
            List.map_append, List.map_cons, List.map_cons] at hkeys
          refine hstrict (w.map key) (key q) (key r) (left.map key) hkeys.symm ?_
          rcases hlen with hlen | rfl
          · refine .inl ?_
            have hcount := congrArg List.length he
            simp only [List.length_append, List.length_cons, List.length_nil] at hcount hlen
            rcases hv.full with hd | hd
            · rw [List.length_map, show w.length + 2 = v.length + p by omega]
              exact Nat.dvd_add hd (Nat.dvd_refl p)
            · rw [hd] at hperm
              simp at hperm
          · exact .inr rfl
        have hnext := hv.step hid (htables k) hl hlast
        have hfewer : (after idOf key (some (idOf r, key r)) rows).length ≤ n := by
          have h₁ := (hnext.rest.trans hv.rest.symm).length_eq
          simp only [List.length_append, List.length_cons, List.length_nil] at h₁
          omega
        obtain ⟨l', hw, hin⟩ := ih (k + 1) hnext hfewer
        refine ⟨l ++ [r] ++ l', .next (t := (idOf r, key r)) ⟨hl.symm, token_concat.symm⟩ hw, ?_⟩
        rw [← List.append_assoc]
        exact hin

/-- A walk that visits each row once finds the borders strict. -/
theorem strict_of_walk (hp : 1 ≤ p) (hid : UniqueKey idOf rows)
    (htables : ∀ k, (tables k).Perm rows) (hw : Walk (Find idOf key tables p) k tok l)
    (hv : Visited idOf key p rows v tok) (hall : (v ++ l).Perm rows) {u w : List ρ}
    (hsplit : v ++ l = u ++ a :: b :: w) (hb : p ∣ u.length + 2 ∨ w = [])
    (hlt : v.length < u.length + 2) : key a < key b := by
  induction hw generalizing v with
  | @last k tok items h =>
      obtain ⟨rfl, hnone⟩ := h
      rcases List.eq_nil_or_concat' (page idOf key p tok (tables k)) with hnil | ⟨l, r, hl⟩
      · have hcount := congrArg List.length hsplit
        simp only [hnil, List.length_append, List.length_cons, List.length_nil] at hcount
        omega
      · rw [hl, token_concat] at hnone
        cases hnone
  | @next k tok items l t h hnext ih =>
      obtain ⟨rfl, ht⟩ := h
      obtain ⟨left, hperm, hs, hle, hlen⟩ := exists_left idOf key p tok (htables k)
      rcases List.eq_nil_or_concat' (page idOf key p tok (tables k)) with hnil | ⟨pg, r, hl⟩
      · rw [hnil] at ht
        cases ht
      · rw [hl, token_concat] at ht
        cases ht
        rw [hl] at hperm hs hlen hall hsplit hle
        have hnodup : (v ++ (pg ++ [r] ++ l)).Nodup :=
          (hall.nodup_iff).mpr (List.Nodup.of_map idOf hid)
        have hlast : ∀ w q, v ++ pg = w ++ [q] → key q < key r := by
          intro w q he
          by_contra hnot
          have hin := hv.inOrder hperm hs
          rw [show v ++ (pg ++ [r] ++ left) = w ++ (q :: r :: left) by
            rw [show v ++ (pg ++ [r] ++ left) = (v ++ pg) ++ r :: left by simp, he]; simp] at hin
          have hqr : key q ≤ key r :=
            (List.pairwise_cons.mp (List.pairwise_append.mp hin.sorted).2.1).1 r (by simp)
          have hq : q ∈ rows := hin.perm.mem_iff.mp (by simp)
          have hr : r ∈ rows := hin.perm.mem_iff.mp (by simp)
          rw [show v ++ (pg ++ [r] ++ l) = w ++ (q :: r :: l) by
            rw [show v ++ (pg ++ [r] ++ l) = (v ++ pg) ++ r :: l by simp, he]; simp] at hnodup
          have hq' := (List.nodup_cons.mp (List.nodup_append.mp hnodup).2.1).1
          have hne : idOf q ≠ idOf r := fun h => hq' (by rw [hid.inj hq hr h]; simp)
          have hmem : q ∈ l := by
            refine mem_of_walk hp hid htables hnext (i := idOf r) ?_ hq hne
            rw [le_antisymm hqr (not_lt.mp hnot)]
          exact hq' (List.mem_cons_of_mem _ hmem)
        have hvisited := hv.step hid (htables k) hl hlast
        by_cases hpos : (v ++ (pg ++ [r])).length < u.length + 2
        · refine ih hvisited ?_ ?_ hpos
          · rw [List.append_assoc]
            exact hall
          · rw [List.append_assoc]
            exact hsplit
        · -- the border is the end of this page
          have hcount := congrArg List.length hsplit
          simp only [List.length_append, List.length_cons, List.length_nil] at hcount hpos hle
          have heq : u.length + 2 = v.length + (pg.length + 1) := by
            rcases hb with hd | rfl
            · rcases hv.full with hd' | hd'
              · have hd'' : p ∣ u.length + 2 - v.length := Nat.dvd_sub hd hd'
                have := Nat.le_of_dvd (by omega) hd''
                omega
              · rw [hd'] at hperm
                simp at hperm
            · simp only [List.length_nil] at hcount
              omega
          have hparts : (v ++ pg) ++ r :: l = (u ++ [a]) ++ b :: w := by
            simpa using hsplit
          obtain ⟨hfst, hsnd⟩ := List.append_inj hparts (by
            simp only [List.length_append, List.length_cons, List.length_nil]
            omega)
          cases hsnd
          exact hlast u a hfst

/-- The walk over a table ends and visits each row once, in order, iff the borders are strict. -/
theorem visits_iff (hp : 1 ≤ p) (hid : UniqueKey idOf rows) (htables : ∀ k, (tables k).Perm rows) :
    (∃ l, Walk (Find idOf key tables p) 0 none l ∧ InOrder key rows l) ↔
      StrictBorders p ((sorted key rows).map key) := by
  constructor
  · rintro ⟨l, hw, hin⟩ keys x y keys' he hb
    rw [← hin.map_key] at he
    obtain ⟨u, l₁, rfl, rfl, he₁⟩ := List.map_eq_append_iff.mp he
    obtain ⟨a, l₂, rfl, rfl, he₂⟩ := List.map_eq_cons_iff.mp he₁
    obtain ⟨b, w, rfl, rfl, rfl⟩ := List.map_eq_cons_iff.mp he₂
    rw [List.length_map, List.map_eq_nil_iff] at hb
    exact strict_of_walk hp hid htables hw visited_nil hin.perm rfl hb (Nat.succ_pos _)
  · intro h
    exact exists_walk hp hid htables h _ 0 visited_nil (le_refl _)

theorem page_subset : ∀ r ∈ page idOf key p tok rows, r ∈ rows := by
  intro r hr
  have hafter := perm_sorted.mem_iff.mp (List.mem_of_mem_take hr)
  rcases tok with - | ⟨i, x⟩
  · exact hafter
  · exact (mem_after.mp hafter).1

theorem walk_subset (htables : ∀ k, (tables k).Perm rows)
    (hw : Walk (Find idOf key tables p) k tok l) : ∀ r ∈ l, r ∈ rows := by
  induction hw with
  | last h =>
      obtain ⟨rfl, -⟩ := h
      exact fun r hr => (htables _).mem_iff.mp (page_subset r hr)
  | next h _ ih =>
      obtain ⟨rfl, -⟩ := h
      intro r hr
      rcases List.mem_append.mp hr with hr | hr
      · exact (htables _).mem_iff.mp (page_subset r hr)
      · exact ih r hr

/-- The same for answers that show the rows through `view`, with tokens that are written as `g`
says. -/
theorem visits_through_iff {T' β : Type} {find' : ℕ → Option T' → List β → Option T' → Prop}
    {g : ι × τ → T'} {view : ρ → β} (Good : Option (ι × τ) → Prop)
    (hp : 1 ≤ p) (hid : UniqueKey idOf rows) (htables : ∀ k, (tables k).Perm rows)
    (hfind : ∀ k tok, Good tok → ∀ items' tok'', find' k (tok.map g) items' tok'' ↔
      ∃ items tok', Find idOf key tables p k tok items tok' ∧ items' = items.map view ∧
        tok'' = tok'.map g)
    (hgood : ∀ {k tok items tok'}, Good tok → Find idOf key tables p k tok items tok' → Good tok')
    (hstart : Good none) (hview : ∀ a b, view a = view b → idOf a = idOf b) :
    (∃ l, Walk find' 0 none (l.map view) ∧ InOrder key rows l) ↔
      StrictBorders p ((sorted key rows).map key) := by
  rw [← visits_iff hp hid htables]
  constructor
  · rintro ⟨l, hw, hin⟩
    obtain ⟨l', hw', hl⟩ := (walk_map_iff hfind hgood hstart).mp hw
    -- the rows are known by what is shown of them
    have heq : l = l' := by
      have hsub := walk_subset htables hw'
      have hmem : ∀ r ∈ l, r ∈ rows := fun r hr => hin.perm.mem_iff.mp hr
      clear hin hw hw'
      induction l generalizing l' with
      | nil => exact (List.map_eq_nil_iff.mp hl.symm).symm
      | cons a l ih =>
          rcases l' with - | ⟨b, l'⟩
          · cases hl
          · rw [List.map_cons, List.map_cons, List.cons.injEq] at hl
            rw [hid.inj (hmem a (by simp)) (hsub b (by simp)) (hview a b hl.1),
              ih l' hl.2 (fun r hr => hsub r (by simp [hr])) (fun r hr => hmem r (by simp [hr]))]
    exact ⟨l, heq ▸ hw', hin⟩
  · rintro ⟨l, hw, hin⟩
    exact ⟨l, (walk_map_iff hfind hgood hstart).mpr ⟨l, hw, rfl⟩, hin⟩

end

end Keyset

end Rauthy
