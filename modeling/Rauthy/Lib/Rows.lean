/-
Rauthy/Lib/Rows.lean

Rows with a unique key that are replaced one after the other, as by a loop of statements
`UPDATE … WHERE key = $1`.  `Rewrites key P l rows rows'` says what such a loop over `l` has
done: the rows of `l` have become rows that are related to them by `P`, in the same places,
and the others are as they were.

Main result: `outcomes_rewrites`, from one run of the body to the loop.
-/
import Mathlib.Data.List.Nodup
import Rauthy.Lib.Prog

namespace Rauthy

variable {α κ : Type}

/-- No two rows have the same key. -/
def UniqueKey (key : α → κ) (rows : List α) : Prop := (rows.map key).Nodup

/-- What a loop over `l` does to the rows. -/
def Rewrites (key : α → κ) (P : α → α → Prop) (l rows rows' : List α) : Prop :=
  ∃ g : α → α, rows' = rows.map g ∧
    ∀ r ∈ rows, key (g r) = key r ∧ (r ∈ l → P r (g r)) ∧ (r ∉ l → g r = r)

/-- Every row keeps its place and its key, and becomes one that is related to it by `P`. -/
def Rowwise (key : α → κ) (P : α → α → Prop) (rows rows' : List α) : Prop :=
  ∃ g : α → α, rows' = rows.map g ∧ ∀ r ∈ rows, key (g r) = key r ∧ P r (g r)

variable {key : α → κ} {P : α → α → Prop} {l rows rows' : List α} {c c' : α}
  {f : α → α}

theorem UniqueKey.inj (h : UniqueKey key rows) {a b : α} (ha : a ∈ rows) (hb : b ∈ rows)
    (he : key a = key b) : a = b := List.inj_on_of_nodup_map h ha hb he

theorem UniqueKey.append (h : UniqueKey key rows) (hc : ∀ r ∈ rows, key r ≠ key c) :
    UniqueKey key (rows ++ [c]) := by
  unfold UniqueKey
  rw [List.map_append, List.nodup_append]
  refine ⟨h, List.nodup_singleton _, fun k hk k' hk' he => ?_⟩
  obtain ⟨r, hr, rfl⟩ := List.mem_map.mp hk
  obtain rfl := List.mem_singleton.mp hk'
  exact hc r hr he

theorem UniqueKey.sublist (h : UniqueKey key rows) (hsub : rows'.Sublist rows) :
    UniqueKey key rows' := List.Nodup.sublist (hsub.map key) h

/-- Rows that keep their keys. -/
theorem UniqueKey.map (h : UniqueKey key rows) (hf : ∀ r, key (f r) = key r) :
    UniqueKey key (rows.map f) := by
  unfold UniqueKey
  rw [List.map_map, show key ∘ f = key from funext hf]
  exact h

/-- The head and the others. -/
theorem UniqueKey.of_cons (h : UniqueKey key (c :: l)) :
    UniqueKey key l ∧ ∀ a ∈ l, key a ≠ key c := by
  obtain ⟨hc, hl⟩ := List.nodup_cons.mp h
  exact ⟨hl, fun a ha he => hc (he ▸ List.mem_map_of_mem ha)⟩

/-- The rows that are updated, when these are the rows with `p` before and after. -/
theorem filter_map_update (p : α → Bool) (f : α → α) (hf : ∀ a, p (f a) = p a)
    (l : List α) : (l.map fun a => if p a then f a else a).filter p = (l.filter p).map f := by
  induction l with
  | nil => rfl
  | cons a l ih =>
      rw [List.map_cons]
      by_cases ha : p a = true
      · rw [if_pos ha, List.filter_cons_of_pos ((hf a).trans ha), List.filter_cons_of_pos ha,
          List.map_cons, ih]
      · rw [if_neg ha, List.filter_cons_of_neg ha, List.filter_cons_of_neg ha, ih]

/-- A row that is appended is the only one with its key. -/
theorem filter_append_new [BEq κ] [LawfulBEq κ] (h : ∀ r ∈ rows, key r ≠ key c) :
    (rows ++ [c]).filter (fun r => key r == key c) = [c] := by
  have hold : rows.filter (fun r => key r == key c) = [] :=
    List.filter_eq_nil_iff.mpr fun r hr he => h r hr (beq_iff_eq.mp he)
  rw [List.filter_append, hold, List.nil_append]
  exact List.filter_cons_of_pos (beq_self_eq_true _)

theorem rewrites_nil : Rewrites key P [] rows rows :=
  ⟨id, by simp, fun _ _ => ⟨rfl, fun h => by simp at h, fun _ => rfl⟩⟩

/-- A row that the loop leaves alone. -/
theorem Rewrites.skip (h : Rewrites key P l rows rows') (hc : c ∉ l) (hP : P c c) :
    Rewrites key P (c :: l) rows rows' := by
  obtain ⟨g, hg, hrows⟩ := h
  refine ⟨g, hg, fun r hr => ?_⟩
  obtain ⟨hkey, hin, hout⟩ := hrows r hr
  refine ⟨hkey, fun hmem => ?_, fun hmem => hout fun h => hmem (List.mem_cons_of_mem _ h)⟩
  rcases List.mem_cons.mp hmem with rfl | hmem
  · rw [hout hc]
    exact hP
  · exact hin hmem

/-- A loop over the rows that are not as they should be. -/
theorem Rewrites.all {p : α → Bool} (h : Rewrites key P (rows.filter p) rows rows')
    (hskip : ∀ r ∈ rows, p r = false → P r r) : Rowwise key P rows rows' := by
  obtain ⟨g, hg, hrows⟩ := h
  refine ⟨g, hg, fun r hr => ?_⟩
  obtain ⟨hkey, hin, hout⟩ := hrows r hr
  refine ⟨hkey, ?_⟩
  by_cases hp : p r = true
  · exact hin (List.mem_filter.mpr ⟨hr, hp⟩)
  · rw [hout fun hmem => hp (List.mem_filter.mp hmem).2]
    exact hskip r hr (Bool.eq_false_iff.mpr hp)

/-- The rows of the loop have got the value of `f`. -/
theorem Rewrites.eq_map {p : α → Bool} (h : Rewrites key (fun r r' => r' = f r) l rows rows')
    (hp : ∀ r ∈ rows, (r ∈ l ↔ p r = true)) :
    rows' = rows.map fun r => if p r = true then f r else r := by
  obtain ⟨g, hg, hrows⟩ := h
  rw [hg]
  refine List.map_congr_left fun r hr => ?_
  obtain ⟨-, hin, hout⟩ := hrows r hr
  by_cases he : p r = true
  · rw [if_pos he]
    exact hin ((hp r hr).mpr he)
  · rw [if_neg he]
    exact hout fun hmem => he ((hp r hr).mp hmem)

variable [DecidableEq κ]

/-- The row with the key of `c` becomes `c`. -/
def replaceRow (key : α → κ) (c : α) (rows : List α) : List α :=
  rows.map fun r => if key r = key c then c else r

theorem mem_replaceRow {r : α} (h : r ∈ replaceRow key c rows) : r = c ∨ r ∈ rows ∧ key r ≠ key c := by
  obtain ⟨x, hx, rfl⟩ := List.mem_map.mp h
  split
  · exact .inl rfl
  · next hne => exact .inr ⟨hx, hne⟩

theorem mem_replaceRow_of_ne {r : α} (hr : r ∈ rows) (hne : key r ≠ key c) :
    r ∈ replaceRow key c rows := List.mem_map.mpr ⟨r, hr, if_neg hne⟩

theorem UniqueKey.replaceRow (h : UniqueKey key rows) (c : α) :
    UniqueKey key (replaceRow key c rows) := by
  refine h.map fun r => ?_
  split
  · next he => exact he.symm
  · rfl

/-- A row that the loop replaces, before it goes on with the rest. -/
theorem Rewrites.replace (h : Rewrites key P l (replaceRow key c' rows) rows')
    (hu : UniqueKey key rows) (hc : c ∈ rows) (hkey : key c' = key c) (hP : P c c')
    (hl : ∀ a ∈ l, key a ≠ key c) : Rewrites key P (c :: l) rows rows' := by
  obtain ⟨g, hg, hrows⟩ := h
  refine ⟨fun r => g (if key r = key c' then c' else r), ?_, fun r hr => ?_⟩
  · rw [hg, Rauthy.replaceRow, List.map_map]
    rfl
  by_cases he : key r = key c'
  · -- this is `c`, and the rest of the loop leaves its new version alone
    obtain rfl : r = c := hu.inj hr hc (he.trans hkey)
    have hc' : c' ∈ Rauthy.replaceRow key c' rows := List.mem_map.mpr ⟨r, hr, if_pos he⟩
    have hout : g c' = c' := (hrows c' hc').2.2 fun hmem => hl c' hmem hkey
    simp only [he, if_true, hout]
    exact ⟨trivial, fun _ => hP, fun hmem => absurd List.mem_cons_self hmem⟩
  · obtain ⟨hk, hin, hout⟩ := hrows r (mem_replaceRow_of_ne hr he)
    simp only [if_neg he]
    refine ⟨hk, fun hmem => ?_, fun hmem => hout fun h => hmem (List.mem_cons_of_mem _ h)⟩
    rcases List.mem_cons.mp hmem with rfl | hmem
    · exact absurd hkey.symm he
    · exact hin hmem

/-- A statement that sets columns of the row with the key of `c`. -/
def updateRow (key : α → κ) (upd : α → α → α) (rows : List α) (c : α) : List α :=
  rows.map fun r => if key r = key c then upd c r else r

/-- The new values are rows that differ from the old ones in these columns only. -/
theorem updateRow_eq {upd : α → α → α} (hu : UniqueKey key rows) (hc : c ∈ rows)
    (hkey : key c' = key c) (hupd : upd c' c = c') :
    updateRow key upd rows c' = replaceRow key c' rows := by
  refine List.map_congr_left fun r hr => ?_
  by_cases he : key r = key c'
  · have hrc : r = c := hu.inj hr hc (he.trans hkey)
    rw [if_pos he, if_pos he, hrc, hupd]
  · rw [if_neg he, if_neg he]

/-- Such statements, one after the other. -/
theorem rewrites_updates {upd : α → α → α} (hu : UniqueKey key rows) (hl : UniqueKey key l)
    (hsub : ∀ c ∈ l, c ∈ rows) (hf : ∀ c ∈ l, key (f c) = key c ∧ upd (f c) c = f c) :
    Rewrites key (fun r r' => r' = f r) l rows ((l.map f).foldl (updateRow key upd) rows) := by
  induction l generalizing rows with
  | nil => exact rewrites_nil
  | cons c l ih =>
      obtain ⟨hl, hne⟩ := hl.of_cons
      obtain ⟨hkey, hupd⟩ := hf c List.mem_cons_self
      have hc : c ∈ rows := hsub c List.mem_cons_self
      rw [List.map_cons, List.foldl_cons, updateRow_eq hu hc hkey hupd]
      have hsub' : ∀ a ∈ l, a ∈ replaceRow key (f c) rows := fun a ha =>
        mem_replaceRow_of_ne (hsub a (List.mem_cons_of_mem _ ha)) (hkey ▸ hne a ha)
      have hrest := ih (hu.replaceRow (f c)) hl hsub' fun a ha => hf a (List.mem_cons_of_mem _ ha)
      exact hrest.replace hu hc hkey rfl hne

/-! ### Loops -/

section Loop

open Prog

variable {O ε S : Type} {R : O → Type} {step : (o : O) → S → R o → S → Prop}

/-- What the body does for the row `c` if it does not fail. -/
def Rewritten (key : α → κ) (P : α → α → Prop) (c : α) (rows rows' : List α) : Prop :=
  rows' = rows ∧ P c c ∨ ∃ c', key c' = key c ∧ P c c' ∧ rows' = replaceRow key c' rows

theorem Rewritten.of_replace (hrows : rows' = replaceRow key c' rows) (hkey : key c' = key c)
    (hP : P c c') : Rewritten key P c rows rows' := .inr ⟨c', hkey, hP, hrows⟩

/-- A body that keeps `I` and rewrites its row, in a loop over rows of the table. -/
theorem outcomes_rewrites (key : α → κ) (P : α → α → Prop) (table : S → List α) (I : S → Prop)
    {f : α → Prog O R ε Unit} (hI : ∀ s, I s → UniqueKey key (table s))
    (hstep : ∀ s, ∀ c ∈ l, I s → c ∈ table s → Outcomes step (f c) s fun r s' =>
      I s' ∧ (r = .ok () → Rewritten key P c (table s) (table s')))
    (hl : UniqueKey key l) {s : S} (hs : I s) (hsub : ∀ c ∈ l, c ∈ table s) :
    Outcomes step (forEach f l) s fun r s' =>
      I s' ∧ (r = .ok () → Rewrites key P l (table s) (table s')) := by
  induction l generalizing s with
  | nil => exact outcomes_ret ⟨hs, fun _ => rewrites_nil⟩
  | cons c l ih =>
      obtain ⟨hl, hne⟩ := hl.of_cons
      have hc : c ∈ table s := hsub c List.mem_cons_self
      have hsub' : ∀ a ∈ l, a ∈ table s := fun a ha => hsub a (List.mem_cons_of_mem _ ha)
      have ih := ih fun s a ha => hstep s a (List.mem_cons_of_mem _ ha)
      refine outcomes_bind (outcomes_mono (hstep s c List.mem_cons_self hs hc) fun r s₁ hr => ?_)
      obtain ⟨hs₁, hr⟩ := hr
      rcases r with e | ⟨⟩
      · exact ⟨hs₁, fun h => by cases h⟩
      rcases hr rfl with ⟨hsame, hP⟩ | ⟨c', hkey, hP, hrows⟩
      · refine outcomes_mono (ih hl hs₁ (hsame ▸ hsub')) fun r s₂ h => ⟨h.1, fun hr => ?_⟩
        have hrest := h.2 hr
        rw [hsame] at hrest
        exact hrest.skip (fun hmem => hne c hmem rfl) hP
      · have hin : ∀ a ∈ l, a ∈ table s₁ := fun a ha =>
          hrows ▸ mem_replaceRow_of_ne (hsub' a ha) (hkey ▸ hne a ha)
        refine outcomes_mono (ih hl hs₁ hin) fun r s₂ h => ⟨h.1, fun hr => ?_⟩
        have hrest := h.2 hr
        rw [hrows] at hrest
        exact hrest.replace (hI s hs) hc hkey hP hne

end Loop

end Rauthy
