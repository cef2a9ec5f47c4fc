/-
Rauthy/Lib/Relational.lean

Tables with unique columns and foreign keys, and the copy of one database into another one by
statements, one table after the other: everything in the table of the target is deleted, and then
the rows of the source are inserted.  A deletion reaches the tables that refer to the deleted rows,
and a row is refused if what it refers to is not there; so the tables have to come after those that
they refer to.

Main result: `copyTable_state`.  A table copied in its turn holds the rows of the source, those that
were copied before it stay as they are, and those that need its rows and are not copied are empty.
`Copied.valid`: the target obeys the schema, if the source does.
-/
import Mathlib.Logic.Function.Basic
import Mathlib.Data.List.Basic

namespace Relational

variable {T : Type} [DecidableEq T] {R : T → Type}

/-- The rows of every table. -/
abbrev Tables (R : T → Type) := (t : T) → List (R t)

/-- A row of `t` may refer to the row of `parent` with the same key.  When that is deleted, what
`onDelete` says happens to the row. -/
structure ForeignKey (R : T → Type) (t : T) where
  parent : T
  ref : R t → Option String
  key : R parent → Option String
  onDelete : R t → Option (R t)

/-- What a row refers to is there. -/
def ForeignKey.holds {t : T} (fk : ForeignKey R t) (db : Tables R) (r : R t) : Bool :=
  (fk.ref r).all fun k => (db fk.parent).any fun r' => fk.key r' == some k

/-- Every table comes after those that it refers to, and only once. -/
def ParentsFirst (foreignKeys : (t : T) → List (ForeignKey R t)) : List T → List T → Prop
  | _, [] => True
  | done, t :: ts =>
      t ∉ done ∧ (∀ fk ∈ foreignKeys t, fk.parent ∈ done) ∧
        ParentsFirst foreignKeys (t :: done) ts

instance decidableParentsFirst (foreignKeys : (t : T) → List (ForeignKey R t)) :
    (done ts : List T) → Decidable (ParentsFirst foreignKeys done ts)
  | _, [] => .isTrue trivial
  | done, t :: ts =>
      have := decidableParentsFirst foreignKeys (t :: done) ts
      inferInstanceAs (Decidable (t ∉ done ∧ (∀ fk ∈ foreignKeys t, fk.parent ∈ done) ∧
        ParentsFirst foreignKeys (t :: done) ts))

/-- When two rows cannot both be in a table, what its rows refer to, and an order in which a
deletion can be carried from table to table. -/
structure Schema (R : T → Type) where
  conflicts : (t : T) → R t → R t → Bool
  foreignKeys : (t : T) → List (ForeignKey R t)
  order : List T
  ordered : ParentsFirst foreignKeys [] order

namespace Schema

variable (s : Schema R)

/-! ### Statements -/

/-- A row after other rows have been deleted; `none` if it is deleted with them. -/
def settleRow (db : Tables R) (t : T) (r : R t) : Option (R t) :=
  (s.foreignKeys t).foldlM (fun r fk => if fk.holds db r then some r else fk.onDelete r) r

def settleTable (db : Tables R) (t : T) : Tables R :=
  Function.update db t ((db t).filterMap (s.settleRow db t))

/-- A deletion, with all that depends on the rows. -/
def delete (t : T) (p : R t → Bool) (db : Tables R) : Tables R :=
  s.order.foldl s.settleTable (Function.update db t ((db t).filter fun r => !p r))

/-- `none` if the statement is refused. -/
def insert (t : T) (r : R t) (db : Tables R) : Option (Tables R) :=
  if (db t).any (s.conflicts t r) then none
  else if (s.foreignKeys t).all (·.holds db r) then
    some (Function.update db t (db t ++ [r]))
  else none

/-- An insertion that replaces the rows it conflicts with. -/
def replace (t : T) (r : R t) (db : Tables R) : Option (Tables R) :=
  if (s.foreignKeys t).all (·.holds db r) then
    some (Function.update db t ((db t).filter (fun r' => !s.conflicts t r r') ++ [r]))
  else none

end Schema

/-- The statement a row is written with; the target may not know it. -/
inductive Writing where
  | insert
  | replace
  | unknown

/-- How the rows of a source are written: what becomes of each, and by which statement. -/
structure Copying (R : T → Type) where
  convert : (t : T) → R t → R t
  writing : T → Writing

namespace Schema

variable (s : Schema R) (c : Copying R) (src : Tables R)

def put (t : T) (db : Tables R) (r : R t) : Option (Tables R) :=
  match c.writing t with
  | .insert => s.insert t r db
  | .replace => s.replace t r db
  | .unknown => none

/-- All rows of a table are deleted, and those of the source are written. -/
def copyTable (db : Tables R) (t : T) : Option (Tables R) :=
  ((src t).map (c.convert t)).foldlM (s.put c t) (s.delete t (fun _ => true) db)

def copyTables (db : Tables R) (ts : List T) : Option (Tables R) :=
  ts.foldlM (s.copyTable c src) db

/-! ### What is required, and what is achieved -/

/-- No two rows conflict, and every row refers to one that is there. -/
structure Valid (db : Tables R) : Prop where
  distinct : ∀ t, (db t).Pairwise fun a b => s.conflicts t b a = false
  references : ∀ t, ∀ r ∈ db t, ∀ fk ∈ s.foreignKeys t, fk.holds db r = true

/-- The rows of this table cannot be without one of another table, which has been copied. -/
def Needs (done : List T) (t : T) : Prop :=
  t ∈ s.order ∧ ∃ fk ∈ s.foreignKeys t, fk.parent ∈ done ∧
    ∀ r, fk.ref r ≠ none ∧ fk.onDelete r = none

/-- The conversion leaves alone what the schema speaks about. -/
structure Keeps : Prop where
  conflicts : ∀ t a b, s.conflicts t (c.convert t a) (c.convert t b) = s.conflicts t a b
  ref : ∀ t, ∀ fk ∈ s.foreignKeys t, ∀ r, fk.ref (c.convert t r) = fk.ref r
  key : ∀ t, ∀ fk ∈ s.foreignKeys t, ∀ r, fk.key (c.convert fk.parent r) = fk.key r

/-- The state after the tables `done` have been copied. -/
structure Copied (done : List T) (db : Tables R) : Prop where
  closed : ∀ t ∈ done, ∀ fk ∈ s.foreignKeys t, fk.parent ∈ done
  rows : ∀ t ∈ done, db t = (src t).map (c.convert t)
  empty : ∀ t, t ∉ done → s.Needs done t → db t = []

variable {s c src} {db : Tables R} {t t' : T} {done ts : List T}

/-! ### Deletions -/

theorem settleTable_of_ne (h : t' ≠ t) : s.settleTable db t t' = db t' :=
  Function.update_of_ne h ..

/-- Nothing happens to a table if everything that it refers to is there. -/
theorem settleTable_of_holds
    (h : ∀ r ∈ db t, ∀ fk ∈ s.foreignKeys t, fk.holds db r = true) : s.settleTable db t = db := by
  have hrow : ∀ r ∈ db t, s.settleRow db t r = some r := by
    intro r hr
    have hfks := h r hr
    rw [settleRow]
    generalize s.foreignKeys t = fks at hfks
    induction fks with
    | nil => rfl
    | cons fk fks ih =>
        obtain ⟨hfk, hfks⟩ := List.forall_mem_cons.mp hfks
        rw [List.foldlM_cons, if_pos hfk]
        exact ih hfks
  rw [settleTable, List.filterMap_congr hrow, List.filterMap_some, Function.update_eq_self]

/-- An empty table stays empty. -/
theorem settleTable_nil (h : db t' = []) : s.settleTable db t t' = [] := by
  by_cases ht : t' = t
  · subst ht
    rw [settleTable, Function.update_self, h, List.filterMap_nil]
  · rw [settleTable_of_ne ht, h]

theorem foldl_settleTable_nil (h : db t = []) : ts.foldl s.settleTable db t = [] := by
  induction ts generalizing db with
  | nil => exact h
  | cons t' ts ih => exact ih (settleTable_nil h)

/-- All rows go that need one of an empty table. -/
theorem settleTable_needs {fk : ForeignKey R t} (hmem : fk ∈ s.foreignKeys t)
    (hparent : db fk.parent = []) (hfk : ∀ r, fk.ref r ≠ none ∧ fk.onDelete r = none) :
    s.settleTable db t t = [] := by
  have hfalse : ∀ r, fk.holds db r = false := by
    intro r
    obtain ⟨k, hk⟩ := Option.ne_none_iff_exists'.mp (hfk r).1
    rw [ForeignKey.holds, hk, hparent]
    rfl
  rw [settleTable, Function.update_self, List.filterMap_eq_nil_iff]
  intro r hr
  clear hr
  rw [settleRow]
  -- whatever the foreign keys before this one have made of the row
  generalize s.foreignKeys t = fks at hmem
  induction fks generalizing r with
  | nil => cases hmem
  | cons fk' fks ih =>
      rw [List.foldlM_cons]
      obtain rfl | hmem := List.mem_cons.mp hmem
      · rw [hfalse r, (hfk r).2]
        rfl
      · cases (if fk'.holds db r then some r else fk'.onDelete r) with
        | none => rfl
        | some r' => exact ih r' hmem

theorem foldl_settleTable_needs {fk : ForeignKey R t} (ht : t ∈ ts) (hmem : fk ∈ s.foreignKeys t)
    (hparent : db fk.parent = []) (hfk : ∀ r, fk.ref r ≠ none ∧ fk.onDelete r = none) :
    ts.foldl s.settleTable db t = [] := by
  induction ts generalizing db with
  | nil => cases ht
  | cons t' ts ih =>
      rw [List.foldl_cons]
      obtain rfl | ht := List.mem_cons.mp ht
      · exact foldl_settleTable_nil (settleTable_needs hmem hparent hfk)
      · exact ih ht (settleTable_nil hparent)

theorem delete_nil (h : db t' = []) {p : R t → Bool} : s.delete t p db t' = [] := by
  apply foldl_settleTable_nil
  by_cases ht : t' = t
  · subst ht
    rw [Function.update_self, h, List.filter_nil]
  · rw [Function.update_of_ne ht, h]

/-- The table that is deleted whole. -/
theorem delete_all_self : s.delete t (fun _ => true) db t = [] := by
  apply foldl_settleTable_nil
  rw [Function.update_self]
  exact List.filter_false _

/-- A table that needs the deleted one. -/
theorem delete_all_needs {fk : ForeignKey R t'} (ht : t' ∈ s.order) (hmem : fk ∈ s.foreignKeys t')
    (hfk : ∀ r, fk.ref r ≠ none ∧ fk.onDelete r = none) :
    s.delete fk.parent (fun _ => true) db t' = [] := by
  apply foldl_settleTable_needs ht hmem _ hfk
  rw [Function.update_self]
  exact List.filter_false _

/-! ### The tables that have been copied -/

section Copied

variable (hsrc : s.Valid src) (hc : s.Keeps c)
include hsrc hc

omit [DecidableEq T] in
/-- A row of the source finds what it refers to in the copy. -/
theorem holds_convert {fk : ForeignKey R t} {r : R t} (hr : r ∈ src t)
    (hfk : fk ∈ s.foreignKeys t) (hparent : db fk.parent = (src fk.parent).map (c.convert _)) :
    fk.holds db (c.convert t r) = true := by
  have hsource := hsrc.references t r hr fk hfk
  rw [ForeignKey.holds] at hsource ⊢
  rw [hc.ref t fk hfk, hparent]
  cases hk : fk.ref r with
  | none => rfl
  | some k =>
      rw [hk] at hsource
      obtain ⟨r', hr', hkey⟩ := List.any_eq_true.mp hsource
      apply List.any_eq_true.mpr
      apply Exists.intro (c.convert fk.parent r')
      apply And.intro (List.mem_map_of_mem hr')
      rw [hc.key t fk hfk]
      exact hkey

theorem settleTable_copied (hclosed : ∀ t ∈ done, ∀ fk ∈ s.foreignKeys t, fk.parent ∈ done)
    (hrows : ∀ t ∈ done, db t = (src t).map (c.convert t)) :
    ∀ t' ∈ done, s.settleTable db t t' = (src t').map (c.convert t') := by
  intro t' ht'
  by_cases ht : t' = t
  · subst ht
    rw [settleTable_of_holds, hrows t' ht']
    intro r' hr' fk hfk
    rw [hrows t' ht'] at hr'
    obtain ⟨r, hr, rfl⟩ := List.mem_map.mp hr'
    exact holds_convert hsrc hc hr hfk (hrows _ (hclosed t' ht' fk hfk))
  · rw [settleTable_of_ne ht, hrows t' ht']

theorem foldl_settleTable_copied
    (hclosed : ∀ t ∈ done, ∀ fk ∈ s.foreignKeys t, fk.parent ∈ done)
    (hrows : ∀ t ∈ done, db t = (src t).map (c.convert t)) :
    ∀ t ∈ done, ts.foldl s.settleTable db t = (src t).map (c.convert t) := by
  induction ts generalizing db with
  | nil => exact hrows
  | cons t ts ih => exact ih (settleTable_copied hsrc hc hclosed hrows)

/-- No deletion in another table reaches them. -/
theorem Copied.delete (h : s.Copied c src done db) (ht : t ∉ done) {p : R t → Bool} :
    s.Copied c src done (s.delete t p db) where
  closed := h.closed
  rows := by
    apply foldl_settleTable_copied hsrc hc h.closed
    intro t' ht'
    have hne : t' ≠ t := by
      rintro rfl
      exact ht ht'
    rw [Function.update_of_ne hne, h.rows t' ht']
  empty t' ht' hneeds := delete_nil (h.empty t' ht' hneeds)

omit hsrc hc in
/-- A row without conflicts, whose references are there, comes last. -/
theorem put_eq {r : R t} (hwriting : c.writing t ≠ .unknown)
    (hconflicts : ∀ r' ∈ db t, s.conflicts t r r' = false)
    (hrefs : ∀ fk ∈ s.foreignKeys t, fk.holds db r = true) :
    s.put c t db r = some (Function.update db t (db t ++ [r])) := by
  have hall : (s.foreignKeys t).all (·.holds db r) = true := List.all_eq_true.mpr hrefs
  rw [put]
  cases hw : c.writing t with
  | insert =>
      have hany : ¬ (db t).any (s.conflicts t r) = true := by
        rw [List.any_eq_true]
        rintro ⟨r', hr', hconflict⟩
        rw [hconflicts r' hr'] at hconflict
        cases hconflict
      show s.insert t r db = _
      rw [insert, if_neg hany, if_pos hall]
  | replace =>
      have hfilter : (db t).filter (fun r' => !s.conflicts t r r') = db t := by
        apply List.filter_eq_self.mpr
        intro r' hr'
        rw [hconflicts r' hr']
        rfl
      show s.replace t r db = _
      rw [replace, if_pos hall, hfilter]
  | unknown => exact absurd hw hwriting

omit hsrc hc in
/-- Rows without conflicts are all written, after those that are there. -/
theorem foldlM_put {l rows : List (R t)} (hself : ∀ fk ∈ s.foreignKeys t, fk.parent ≠ t)
    (hdistinct : (l ++ rows).Pairwise fun a b => s.conflicts t b a = false) (hl : db t = l)
    (hrefs : ∀ r ∈ rows, ∀ fk ∈ s.foreignKeys t, fk.holds db r = true)
    (hwriting : rows = [] ∨ c.writing t ≠ .unknown) :
    rows.foldlM (s.put c t) db = some (Function.update db t (l ++ rows)) := by
  induction rows generalizing l db with
  | nil =>
      rw [List.append_nil, ← hl, Function.update_eq_self]
      rfl
  | cons r rows ih =>
      obtain ⟨hr, hrefs⟩ := List.forall_mem_cons.mp hrefs
      have hconflicts : ∀ r' ∈ db t, s.conflicts t r r' = false := by
        intro r' hr'
        rw [hl] at hr'
        exact (List.pairwise_append.mp hdistinct).2.2 r' hr' r List.mem_cons_self
      have hwriting := hwriting.resolve_left (List.cons_ne_nil r rows)
      rw [List.foldlM_cons, put_eq hwriting hconflicts hr]
      show rows.foldlM (s.put c t) (Function.update db t (db t ++ [r])) = _
      rw [ih (l := l ++ [r]), Function.update_idem, List.append_assoc, List.singleton_append]
      · rw [List.append_assoc]
        exact hdistinct
      · rw [Function.update_self, hl]
      · intro r' hr' fk hfk
        rw [ForeignKey.holds, Function.update_of_ne (hself fk hfk)]
        exact hrefs r' hr' fk hfk
      · exact .inr hwriting

omit hsrc [DecidableEq T] in
include hc in
theorem pairwise_convert (h : (src t).Pairwise fun a b => s.conflicts t b a = false) :
    ((src t).map (c.convert t)).Pairwise fun a b => s.conflicts t b a = false := by
  apply List.pairwise_map.mpr
  apply h.imp
  intro a b hab
  rw [hc.conflicts, hab]

/-- **A table that is copied in its turn**, whatever the target has held. -/
theorem copyTable_state (h : s.Copied c src done db) (ht : t ∉ done)
    (hparents : ∀ fk ∈ s.foreignKeys t, fk.parent ∈ done)
    (hwriting : src t = [] ∨ c.writing t ≠ .unknown) :
    ∃ db', s.copyTable c src db t = some db' ∧ s.Copied c src (t :: done) db' := by
  have hdel := h.delete hsrc hc ht (p := fun _ => true)
  have hself : ∀ fk ∈ s.foreignKeys t, fk.parent ≠ t := by
    intro fk hfk he
    exact ht (he ▸ hparents fk hfk)
  have hrefs : ∀ r ∈ (src t).map (c.convert t), ∀ fk ∈ s.foreignKeys t,
      fk.holds (s.delete t (fun _ => true) db) r = true := by
    intro r' hr' fk hfk
    obtain ⟨r, hr, rfl⟩ := List.mem_map.mp hr'
    exact holds_convert hsrc hc hr hfk (hdel.rows _ (hparents fk hfk))
  have hput := foldlM_put (c := c) hself (pairwise_convert hc (hsrc.distinct t)) delete_all_self
    hrefs (hwriting.imp_left fun hnil => by rw [hnil, List.map_nil])
  apply Exists.intro _
  apply And.intro hput
  constructor
  · intro t' ht' fk hfk
    apply List.mem_cons_of_mem
    obtain rfl | ht' := List.mem_cons.mp ht'
    · exact hparents fk hfk
    · exact h.closed t' ht' fk hfk
  · intro t' ht'
    obtain rfl | hdone := List.mem_cons.mp ht'
    · rw [Function.update_self, List.nil_append]
    · have hne : t' ≠ t := by
        rintro rfl
        exact ht hdone
      rw [Function.update_of_ne hne, hdel.rows t' hdone]
  · intro t' ht' hneeds
    have hne : t' ≠ t := List.ne_of_not_mem_cons ht'
    have ht' : t' ∉ done := List.not_mem_of_not_mem_cons ht'
    rw [Function.update_of_ne hne]
    obtain ⟨horder, fk, hfk, hparent, hrows⟩ := hneeds
    obtain rfl | hparent := List.mem_cons.mp hparent
    · exact delete_all_needs horder hfk hrows
    · exact hdel.empty t' ht' ⟨horder, fk, hfk, hparent, hrows⟩

/-- All tables, one after the other. -/
theorem copyTables_state (h : s.Copied c src done db) (hts : ParentsFirst s.foreignKeys done ts)
    (hwriting : ∀ t ∈ ts, src t = [] ∨ c.writing t ≠ .unknown) :
    ∃ db', s.copyTables c src db ts = some db' ∧ s.Copied c src (ts.reverse ++ done) db' := by
  induction ts generalizing db done with
  | nil => exact ⟨db, rfl, h⟩
  | cons t ts ih =>
      obtain ⟨ht, hparents, hts⟩ := hts
      obtain ⟨hw, hwriting⟩ := List.forall_mem_cons.mp hwriting
      obtain ⟨db₁, htable, h₁⟩ := copyTable_state hsrc hc h ht hparents hw
      obtain ⟨db', htables, h'⟩ := ih h₁ hts hwriting
      apply Exists.intro db'
      rw [copyTables, List.foldlM_cons, htable, List.reverse_cons, List.append_assoc]
      exact ⟨htables, h'⟩

omit [DecidableEq T] in
/-- **The copy obeys the schema.** -/
theorem Copied.valid (h : s.Copied c src done db) (hall : ∀ t, t ∉ done → s.Needs done t) :
    s.Valid db where
  distinct t := by
    by_cases ht : t ∈ done
    · rw [h.rows t ht]
      exact pairwise_convert hc (hsrc.distinct t)
    · rw [h.empty t ht (hall t ht)]
      exact .nil
  references t r hr fk hfk := by
    by_cases ht : t ∈ done
    · rw [h.rows t ht] at hr
      obtain ⟨r', hr', rfl⟩ := List.mem_map.mp hr
      exact holds_convert hsrc hc hr' hfk (h.rows _ (h.closed t ht fk hfk))
    · rw [h.empty t ht (hall t ht)] at hr
      cases hr

end Copied

/-- Rows that cannot be written. -/
theorem copyTables_unknown (ht : t ∈ ts) (hne : src t ≠ []) (hw : c.writing t = .unknown) :
    s.copyTables c src db ts = none := by
  induction ts generalizing db with
  | nil => cases ht
  | cons t' ts ih =>
      rw [copyTables, List.foldlM_cons]
      obtain rfl | ht := List.mem_cons.mp ht
      · obtain ⟨r, rows, hrows⟩ := List.exists_cons_of_ne_nil hne
        rw [copyTable, hrows, List.map_cons, List.foldlM_cons, put, hw]
        rfl
      · cases s.copyTable c src db t' with
        | none => rfl
        | some db' => exact ih ht

omit [DecidableEq T] in
/-- Before the first table. -/
theorem copied_nil : s.Copied c src [] db where
  closed _ ht := absurd ht List.not_mem_nil
  rows _ ht := absurd ht List.not_mem_nil
  empty _ _ hneeds := by
    obtain ⟨-, fk, -, hparent, -⟩ := hneeds
    cases hparent

end Schema

end Relational
