/-
Rauthy/Attributes.lean

An attribute of the users is deleted, or gets another name, and every scope that maps it to
the tokens has to follow.  The two lists of a scope are texts with commas, or null.

Main result: `attributes_iff`.  The lists change in exactly the elements that are the
attribute if and only if no other element contains its name and, when it is deleted, it
does not stand last.
-/
import Rauthy.Deletions

namespace Rauthy

open Prog

/-! ### One text -/

/-- `split` of a list that may be null -/
def attrList (attrs : Option String) : List String := attrs.elim [] (Text.split ',')

/-- What a text is like from which an attribute can be removed. -/
def RemovableAttr (name text : String) : Prop :=
  Text.contains text name = true →
    (∀ a ∈ Text.split ',' text, a = name) ∨
      (∀ a ∈ Text.split ',' text, Text.contains a name = true → a = name) ∧
        (Text.split ',' text).getLast? ≠ some name ∧ without name (Text.split ',' text) ≠ [""]

/-- What a text is like in which an attribute can be renamed. -/
def RenamableAttr (old new text : String) : Prop :=
  old = new ∨ ∀ a ∈ Text.split ',' text, Text.contains a old = true → a = old

section Texts

variable {name old new text : String}

theorem toList_removeAttr (name text : String) :
    (Text.replace (Text.replace text (name ++ ",") "") name "").toList =
      Csv.replace name.toList [] (Csv.replace (name.toList ++ [',']) [] text.toList) := by
  rw [Text.toList_replace, Text.toList_replace, String.toList_append, String.toList_empty]
  rfl

theorem forall_split_iff {P : String → Prop} {Q : List Char → Prop}
    (h : ∀ a, P (String.ofList a) ↔ Q a) :
    (∀ a ∈ Text.split ',' text, P a) ↔ ∀ a ∈ text.toList.splitOn ',', Q a := by
  rw [Text.split_eq, List.forall_mem_map]
  exact forall₂_congr fun a _ => h a

theorem ofList_eq_iff {a : List Char} : String.ofList a = name ↔ a = name.toList := by
  rw [← String.toList_inj, String.toList_ofList]

theorem split_removed_iff (text : String) (hname : reAttr name = true) :
    Text.split ',' (Text.replace (Text.replace text (name ++ ",") "") name "") =
        without name (Text.split ',' text) ↔
      (∀ a ∈ Text.split ',' text, Text.contains a name = true → a = name) ∧
        (Text.split ',' text).getLast? ≠ some name := by
  have hc := not_mem_comma_of_reAttr hname
  have hcells : (∀ a ∈ Text.split ',' text, Text.contains a name = true → a = name) ↔
      ∀ a ∈ text.toList.splitOn ',', name.toList <:+: a → a = name.toList := by
    refine forall_split_iff fun a => ?_
    rw [Text.contains_iff, String.toList_ofList, ofList_eq_iff]
  have hlast : (Text.split ',' text).getLast? = some name ↔
      (text.toList.splitOn ',').getLast? = some name.toList := by
    rw [Text.split_eq, List.getLast?_map, Option.map_eq_some_iff]
    simp only [ofList_eq_iff, exists_eq_right]
  rw [hcells, ne_eq, hlast, ← Csv.splitOn_replace_twice (ne_nil_of_reAttr hname) hc,
    Text.split_eq, Text.split_eq, without_ofList, List.map_inj_right ofList_injective,
    toList_removeAttr]

/-- **Removing an attribute from one text.** -/
theorem removeAttr_iff (hname : reAttr name = true) (hin : Text.contains text name = true) :
    attrList (UserAttrConfigEntity.removeAttr name text) = without name (Text.split ',' text) ↔
      RemovableAttr name text := by
  have hc := not_mem_comma_of_reAttr hname
  have hsplit := split_removed_iff text hname
  have hall : without name (Text.split ',' text) = [] ↔ ∀ a ∈ Text.split ',' text, a = name := by
    rw [without, List.filter_eq_nil_iff]
    simp
  unfold RemovableAttr UserAttrConfigEntity.removeAttr
  dsimp only
  rw [forall_prop_of_true hin, ← and_assoc, ← hsplit, ← hall]
  by_cases hempty : Text.replace (Text.replace text (name ++ ",") "") name "" = ""
  · rw [if_pos hempty, hempty, split_empty]
    refine ⟨fun h => .inl h.symm, fun h => h.elim Eq.symm fun h => absurd h.1.symm h.2⟩
  · rw [if_neg hempty]
    refine ⟨fun h => .inr ⟨h, ?_⟩, fun h => h.elim (fun h => ?_) And.left⟩
    · rw [← h]
      show ¬ Text.split ',' _ = [""]
      rw [← split_empty, split_inj]
      exact hempty
    · -- of a text of copies nothing would be left
      have hcopies : ∀ a ∈ text.toList.splitOn ',', a = name.toList :=
        (forall_split_iff (P := (· = name)) fun _ => ofList_eq_iff).mp (hall.mp h)
      refine absurd ?_ hempty
      rw [← String.toList_inj, toList_removeAttr,
        Csv.replace_twice_of_all (ne_nil_of_reAttr hname) hc hcopies, String.toList_empty]

theorem editAttrs_remove_iff (hname : reAttr name = true) (attrs : Option String) :
    attrList (Scope.editAttrs name (UserAttrConfigEntity.removeAttr name) attrs) =
        without name (attrList attrs) ↔ ∀ t, attrs = some t → RemovableAttr name t := by
  rcases attrs with - | t
  · exact iff_of_true rfl fun t h => by cases h
  have hall : (∀ t', some t = some t' → RemovableAttr name t') ↔ RemovableAttr name t :=
    ⟨fun h => h t rfl, fun h t' he => Option.some.inj he ▸ h⟩
  rw [hall]
  show attrList (if Text.contains t name = true then _ else _) = without name (Text.split ',' t) ↔ _
  by_cases hin : Text.contains t name = true
  · rw [if_pos hin]
    exact removeAttr_iff hname hin
  · rw [if_neg hin]
    exact iff_of_true (without_split_of_not_contains hin).symm fun h => absurd h hin

/-- **Renaming an attribute in one text.** -/
theorem renameAttr_iff (hold : reAttr old = true) (hnew : reAttr new = true) :
    Text.split ',' (Text.replace text old new) = renamed old new (Text.split ',' text) ↔
      RenamableAttr old new text := by
  have hcells : (∀ a ∈ Text.split ',' text, Text.contains a old = true → a = old) ↔
      ∀ a ∈ text.toList.splitOn ',', old.toList <:+: a → a = old.toList := by
    refine forall_split_iff fun a => ?_
    rw [Text.contains_iff, String.toList_ofList, ofList_eq_iff]
  unfold RenamableAttr
  rw [hcells, ← String.toList_inj, ← Csv.splitOn_replace_iff (ne_nil_of_reAttr hold)
    (not_mem_comma_of_reAttr hold) (not_mem_comma_of_reAttr hnew), Text.split_eq, Text.split_eq,
    renamed_ofList, List.map_inj_right ofList_injective, Text.toList_replace]

theorem editAttrs_rename_iff (hold : reAttr old = true) (hnew : reAttr new = true)
    (attrs : Option String) :
    attrList (Scope.editAttrs old (fun a => some (Text.replace a old new)) attrs) =
        renamed old new (attrList attrs) ↔ ∀ t, attrs = some t → RenamableAttr old new t := by
  rcases attrs with - | t
  · exact iff_of_true rfl fun t h => by cases h
  have hall : (∀ t', some t = some t' → RenamableAttr old new t') ↔ RenamableAttr old new t :=
    ⟨fun h => h t rfl, fun h t' he => Option.some.inj he ▸ h⟩
  rw [hall, ← renameAttr_iff hold hnew]
  show attrList (if Text.contains t old = true then _ else _) = renamed old new (Text.split ',' t) ↔ _
  by_cases hin : Text.contains t old = true
  · rw [if_pos hin]
    exact Iff.rfl
  · rw [if_neg hin]
    have hsame : Text.replace t old new = t := by
      rw [Text.contains_iff] at hin
      rw [← String.toList_inj, Text.toList_replace]
      exact Csv.replace_eq_self (ne_nil_of_reAttr hold) hin
    rw [hsame]
    exact Iff.rfl

end Texts

/-! ### All scopes -/

/-- A scope whose two lists are edited. -/
def Scope.edited (name : String) (edit : String → Option String) (s : Scope) : Scope :=
  { s with
    attrIncludeAccess := Scope.editAttrs name edit s.attrIncludeAccess
    attrIncludeId := Scope.editAttrs name edit s.attrIncludeId }

/-- The statement of `update_mapping_only` -/
def Scope.mappingStmt (s : Scope) : DbWrite :=
  .update .scopes (fun r => r.id == s.id) fun r =>
    { r with attrIncludeAccess := s.attrIncludeAccess, attrIncludeId := s.attrIncludeId }

section Rows

variable {w w' : World} {name : String} {edit : String → Option String} {ss : List Scope}
  {stmts : List DbWrite}

theorem Scope.sets_mappingStmt : Sets (t := .scopes) Scope.id
    (fun s r => { r with attrIncludeAccess := s.attrIncludeAccess, attrIncludeId := s.attrIncludeId })
    Scope.mappingStmt := by
  intro s db
  have hrows : ∀ r : Scope, (r.id == s.id) = true ↔ r.id = s.id := fun r => beq_iff_eq
  simp only [Scope.mappingStmt, DbWrite.apply, updateRow, hrows]

theorem Scope.editMappings_ok (h : Exec sem (Scope.editMappings name edit ss) w (.ok stmts) w') :
    w'.db = w.db ∧
      stmts = ((ss.filter (Scope.needsUpdate name)).map (Scope.edited name edit)).map
        Scope.mappingStmt := by
  induction ss generalizing w stmts with
  | nil =>
      obtain ⟨hstmts, rfl⟩ := h
      cases hstmts
      exact ⟨rfl, rfl⟩
  | cons s ss ih =>
      unfold Scope.editMappings at h
      split at h
      · next hs =>
          obtain ⟨stmt, w₁, hupdate, h₁⟩ := exec_bind_ok.mp h
          obtain ⟨rest, w₂, hrest, hret, rfl⟩ := exec_bind_ok.mp h₁
          cases hret
          obtain ⟨_, w₃, hbegin, h₃⟩ := exec_bind_ok.mp hupdate
          obtain ⟨_, w₄, hstore, hret, rfl⟩ := exec_bind_ok.mp h₃
          cases hret
          obtain ⟨hdb, rfl⟩ := ih hrest
          rw [List.filter_cons_of_pos hs]
          refine ⟨?_, rfl⟩
          rw [hdb, db_of_touches (scopeListing.storeUpdated_touches (fun _ => rfl) _ _) hstore,
            exec_begin hbegin]
      · next hs =>
          rw [List.filter_cons_of_neg hs]
          exact ih h

theorem Scope.edited_eq (name : String) (edit : String → Option String) (s : Scope) :
    (if Scope.needsUpdate name s = true then s.edited name edit else s) = s.edited name edit := by
  split
  · rfl
  · next h =>
      have hkeep : ∀ attrs : Option String, ¬ attrs.any (Text.contains · name) = true →
          Scope.editAttrs name edit attrs = attrs := by
        intro attrs hattrs
        rcases attrs with - | a
        · rfl
        · exact if_neg hattrs
      rw [Scope.needsUpdate, Bool.or_eq_true, not_or] at h
      unfold Scope.edited
      rw [hkeep _ h.1, hkeep _ h.2]

/-- The rows after the statements of a loop over all of them. -/
theorem Scope.edited_rows {db db' : Db} {rest : List DbWrite} (hu : UniqueKey Scope.id (db .scopes))
    (hrest : ∀ s ∈ rest, s.table ≠ .scopes)
    (h : applyAll ((((db .scopes).filter (Scope.needsUpdate name)).map
      (Scope.edited name edit)).map Scope.mappingStmt ++ rest) db = some db') :
    db' .scopes = (db .scopes).map (Scope.edited name edit) := by
  have hl : UniqueKey Scope.id ((db .scopes).filter (Scope.needsUpdate name)) :=
    hu.sublist List.filter_sublist
  obtain ⟨db₁, hscopes, -, hdb⟩ := Scope.sets_mappingStmt.rows (f := Scope.edited name edit) hu hl
    (fun r => List.mem_filter) (fun s => ⟨rfl, rfl⟩) h
  rw [applyAll_frame hdb hrest, hscopes]
  simp only [Scope.edited_eq]

end Rows

/-- The requests that take an attribute away, or change its name. -/
inductive AttrChange where
  | delete (name : String)
  | update (name : String) (req : UserAttrConfigEntity.UserAttrConfigRequest)

namespace AttrChange

def prog : AttrChange → M ErrorResponse Unit
  | delete name => UserAttrConfigEntity.delete name
  | update name req => do
      let _ ← UserAttrConfigEntity.update name req
      return ()

def name : AttrChange → String
  | delete name => name
  | update name _ => name

/-- Deleting has no new name to check. -/
def NewNameOk : AttrChange → Prop
  | delete _ => True
  | update _ req => reAttr req.name = true

/-- What a list has to become. -/
def onList : AttrChange → List String → List String
  | delete name => without name
  | update name req => renamed name req.name

/-- The name is not used any more. -/
def Gone : AttrChange → Prop
  | delete _ => True
  | update name req => name ≠ req.name

/-- What a text has to be like. -/
def Clean : AttrChange → String → Prop
  | delete name => RemovableAttr name
  | update name req => RenamableAttr name req.name

/-- What is done to a text that contains the name. -/
def edit : AttrChange → String → Option String
  | delete name => UserAttrConfigEntity.removeAttr name
  | update name req => fun a => some (Text.replace a name req.name)

end AttrChange

/-- The scopes, each with its two lists. -/
def attrLists (w : World) : List (String × List (List String)) :=
  (w.db .scopes).map fun s => (s.id, [attrList s.attrIncludeAccess, attrList s.attrIncludeId])

/-- The texts of these lists. -/
def attrTexts (w : World) : List String :=
  (w.db .scopes).flatMap fun s => s.attrIncludeAccess.toList ++ s.attrIncludeId.toList

section Lists

variable {w w' : World}
  {name : String}
  {req : UserAttrConfigRequest}

theorem AttrChange.editAttrs_iff {op : AttrChange} (hname : reAttr op.name = true)
    (hnew : op.NewNameOk) (attrs : Option String) :
    attrList (Scope.editAttrs op.name op.edit attrs) = op.onList (attrList attrs) ↔
      ∀ t, attrs = some t → op.Clean t := by
  cases op with
  | delete name => exact editAttrs_remove_iff hname attrs
  | update name req => exact editAttrs_rename_iff hname hnew attrs

/-- The name is in no list that has become what it has to. -/
theorem AttrChange.not_mem_onList {op : AttrChange} (hgone : op.Gone) (l : List String) :
    op.name ∉ op.onList l := by
  cases op with
  | delete name =>
      intro h
      exact of_decide_eq_true (List.mem_filter.mp h).2 rfl
  | update name req =>
      intro h
      obtain ⟨a, -, ha⟩ := List.mem_map.mp h
      split at ha
      · exact hgone ha.symm
      · next hne => exact hne ha

theorem UserAttrConfigEntity.find_touches (name : String) :
    Touches [] [(.users, .userAttr)] (UserAttrConfigEntity.find name) :=
  touches_cached (touches_fetchOne _ _) (by simp [CacheVal.slot])

theorem UserAttrConfigEntity.deleteAllByKey_ok {stmt : DbWrite}
    (h : Exec sem (UserAttrConfigEntity.deleteAllByKey name) w (.ok stmt) w') :
    w'.db = w.db ∧ stmt.table = .userAttrValues := by
  have htouch : Touches [] [] (UserAttrConfigEntity.deleteAllByKey name) := by
    refine touches_bind (touches_select _ _) fun rows => ?_
    refine touches_bind (within_forEach fun _ _ => touches_cacheDel _ _) fun _ => ?_
    exact touches_bind (touches_execute (by simp)) fun _ => touches_ret _
  refine ⟨db_of_touches htouch h, ?_⟩
  obtain ⟨_, w₁, -, h₁⟩ := exec_bind_ok.mp h
  obtain ⟨_, w₂, -, h₂⟩ := exec_bind_ok.mp h₁
  obtain ⟨_, w₃, -, hret, -⟩ := exec_bind_ok.mp h₂
  cases hret
  rfl

/-- The scopes that the loop goes through are those of the table. -/
theorem editMappings_fresh {edit : String → Option String} {ss : List Scope} {stmts : List DbWrite}
    {w₁ w₂ : World} {cs : List (CacheName × Slot)} (hfresh : scopeListing.Fresh w)
    (hf : Frame [] cs w w₁) (hcs : ∀ s, (.c12hr, s) ∉ cs)
    (hall : Exec sem Scope.findAll w₁ (.ok ss) w₂)
    (hedit : Exec sem (Scope.editMappings name edit ss) w₂ (.ok stmts) w') :
    w'.db = w.db ∧
      stmts = (((w.db .scopes).filter (Scope.needsUpdate name)).map (Scope.edited name edit)).map
        Scope.mappingStmt := by
  have hss : ss = w.db .scopes := by
    have h := (hfresh.frame hf hcs).findAll (L := scopeListing) hall
    rwa [hf.db .scopes (by simp)] at h
  obtain ⟨hdb, hstmts⟩ := Scope.editMappings_ok hedit
  refine ⟨?_, by rw [hstmts, hss]⟩
  rw [hdb, db_of_touches (scopeListing.findAll_touches fun _ => rfl) hall]
  exact funext fun t => hf.db t (by simp)

theorem UserAttrConfigEntity.delete_ok {u : Unit} (hu : UniqueKey Scope.id (w.db .scopes))
    (hfresh : scopeListing.Fresh w) (h : Exec sem (UserAttrConfigEntity.delete name) w (.ok u) w') :
    w'.db .scopes = (w.db .scopes).map (Scope.edited name (removeAttr name)) := by
  obtain ⟨_, w₁, hfind, h₁⟩ := exec_bind_ok.mp h
  obtain ⟨_, w₂, hbegin, h₂⟩ := exec_bind_ok.mp h₁
  obtain ⟨ss, w₃, hall, h₃⟩ := exec_bind_ok.mp h₂
  obtain ⟨stmts, w₄, hedit, h₄⟩ := exec_bind_ok.mp h₃
  obtain ⟨_, w₅, hdel, h₅⟩ := exec_bind_ok.mp h₄
  obtain ⟨stmt, w₆, hvalues, h₆⟩ := exec_bind_ok.mp h₅
  obtain ⟨_, w₇, hsecond, h₇⟩ := exec_bind_ok.mp h₆
  obtain ⟨_, w₈, hcommit, h₈⟩ := exec_bind_ok.mp h₇
  obtain ⟨attrs, w₉, hattrs, hput⟩ := exec_bind_ok.mp h₈
  have hframe := (find_touches name).frame hfind
  rw [← exec_begin hbegin] at hframe
  obtain ⟨hdb₄, hstmts⟩ := editMappings_fresh hfresh hframe (by simp) hall hedit
  obtain ⟨hdb₆, htable⟩ := deleteAllByKey_ok hvalues
  have hdb₇ : w₇.db = w.db := by
    rw [exec_begin hsecond, hdb₆, exec_cacheDel.mp hdel, World.del_db, hdb₄]
  have hdb₈ : w'.db = w₈.db := by
    have hfindAll : Touches [] [(.users, .userAttrs)] findAll :=
      touches_cached (touches_select _ _) (by simp [CacheVal.slot])
    rw [exec_cachePut.mp hput, World.put_db, db_of_touches hfindAll hattrs]
  obtain ⟨db, ⟨hdb, -⟩, rfl⟩ := exec_execute.mp hcommit
  rw [hdb₇, hstmts] at hdb
  rw [hdb₈]
  refine Scope.edited_rows hu (fun s hs => ?_) hdb
  rcases List.mem_pair.mp hs with rfl | rfl
  · rw [htable]
    decide
  · simp [DbWrite.table]

theorem UserAttrConfigEntity.valueOwners_ok {owners : List String}
    (h : Exec sem (valueOwners name req) w (.ok owners) w') : w' = w := by
  unfold valueOwners at h
  split at h
  · exact h.2
  · obtain ⟨rows, w₁, hrows, -, rfl⟩ := exec_bind_ok.mp h
    exact (exec_select.mp hrows).2

/-- An attribute that keeps its name leaves the scopes alone. -/
theorem Scope.edited_same (hname : reAttr name = true) (s : Scope) :
    s.edited name (fun a => some (Text.replace a name name)) = s := by
  have hsame : ∀ attrs : Option String,
      Scope.editAttrs name (fun a => some (Text.replace a name name)) attrs = attrs := by
    intro attrs
    rcases attrs with - | a
    · rfl
    · have hid : Text.replace a name name = a := by
        rw [← String.toList_inj, Text.toList_replace]
        exact Csv.replace_id (ne_nil_of_reAttr hname) _
      show (if Text.contains a name = true then some (Text.replace a name name) else some a) = some a
      rw [hid, ite_self]
  unfold Scope.edited
  rw [hsame, hsame]

theorem UserAttrConfigEntity.update_ok {a : UserAttrConfigEntity} (hname : reAttr name = true)
    (hu : UniqueKey Scope.id (w.db .scopes)) (hfresh : scopeListing.Fresh w)
    (h : Exec sem (UserAttrConfigEntity.update name req) w (.ok a) w') :
    w'.db .scopes =
      (w.db .scopes).map (Scope.edited name fun a => some (Text.replace a name req.name)) := by
  obtain ⟨_, w₁, hfind, h₁⟩ := exec_bind_ok.mp h
  obtain ⟨owners, w₂, howners, h₂⟩ := exec_bind_ok.mp h₁
  obtain ⟨_, w₃, hbegin, h₃⟩ := exec_bind_ok.mp h₂
  obtain ⟨_, w₄, hsecond, h₄⟩ := exec_bind_ok.mp h₃
  obtain ⟨stmts, w₅, hedit, h₅⟩ := exec_bind_ok.mp h₄
  obtain ⟨_, w₆, hcommit, h₆⟩ := exec_bind_ok.mp h₅
  obtain ⟨attrs, w₇, hattrs, h₇⟩ := exec_bind_ok.mp h₆
  obtain ⟨_, w₈, hput, h₈⟩ := exec_bind_ok.mp h₇
  obtain ⟨_, w₉, hdel, -, rfl⟩ := exec_bind_ok.mp h₈
  have hframe := (find_touches name).frame hfind
  rw [← valueOwners_ok howners, ← exec_begin hbegin, ← exec_begin hsecond] at hframe
  have hend : w'.db = w₆.db := by
    have hfindAll : Touches [] [(.users, .userAttrs)] findAll :=
      touches_cached (touches_select _ _) (by simp [CacheVal.slot])
    have hdels : Touches [] [] (forEach
        (fun userId => cacheDel .users (UserAttrValueEntity.cacheIdx userId)) owners) :=
      within_forEach fun _ _ => touches_cacheDel _ _
    rw [db_of_touches hdels hdel,
      exec_cachePut.mp hput, World.put_db, db_of_touches hfindAll hattrs]
  rw [hend]
  -- the statements about the attribute itself come first
  obtain ⟨db, ⟨hdb, -⟩, rfl⟩ := exec_execute.mp hcommit
  rw [applyAll_append] at hdb
  obtain ⟨db₁, hfirst, hdb⟩ := Option.bind_eq_some_iff.mp hdb
  have hscopes : db₁ .scopes = w₅.db .scopes :=
    applyAll_frame hfirst fun s hs => by
      rcases List.mem_pair.mp hs with rfl | rfl <;> simp [DbWrite.table]
  show db .scopes = _
  unfold editRenamed at hedit
  split at hedit
  · next heq =>
      obtain ⟨hstmts, rfl⟩ := hedit
      cases hstmts
      cases hdb
      rw [hscopes, hframe.db .scopes (by simp), ← heq]
      have hid : Scope.edited name (fun a => some (Text.replace a name name)) = id :=
        funext (Scope.edited_same hname)
      rw [hid, List.map_id]
  · obtain ⟨ss, w₁₀, hall, hloop⟩ := exec_bind_ok.mp hedit
    obtain ⟨hdb₅, hstmts⟩ := editMappings_fresh hfresh hframe (by simp) hall hloop
    rw [hdb₅] at hscopes
    rw [hstmts, ← List.append_nil (List.map _ _), ← hscopes] at hdb
    rw [← hscopes]
    exact Scope.edited_rows (hscopes ▸ hu) (by simp) hdb

/-- **The lists of attributes** change in exactly the elements that are the attribute, and its
name is gone, if and only if every text is as it has to be. -/
theorem attributes_iff (op : AttrChange) (hname : reAttr op.name = true) (hnew : op.NewNameOk)
    (hu : UniqueKey Scope.id (w.db .scopes)) (hfresh : scopeListing.Fresh w)
    (h : Exec sem op.prog w (.ok ()) w') :
    (attrLists w' = (attrLists w).map (onLists op.onList) ∧
      (op.Gone → ∀ l ∈ attrLists w', ∀ attrs ∈ l.2, op.name ∉ attrs)) ↔
        ∀ t ∈ attrTexts w, op.Clean t := by
  have hrows : w'.db .scopes = (w.db .scopes).map (Scope.edited op.name op.edit) := by
    cases op with
    | delete name => exact UserAttrConfigEntity.delete_ok hu hfresh h
    | update name req =>
        obtain ⟨_, w₁, hupdate, -, rfl⟩ := exec_bind_ok.mp h
        exact UserAttrConfigEntity.update_ok hname hu hfresh hupdate
  have hlists : attrLists w' = (attrLists w).map (onLists op.onList) ↔ ∀ t ∈ attrTexts w, op.Clean t := by
    show (w'.db .scopes).map _ = _ ↔ ∀ t ∈ (w.db .scopes).flatMap _, _
    rw [hrows, List.forall_mem_flatMap]
    refine lists_map_iff (f := Scope.edited op.name op.edit) (fun _ => rfl) fun s _ => ?_
    have haccess := op.editAttrs_iff hname hnew s.attrIncludeAccess
    have hid := op.editAttrs_iff hname hnew s.attrIncludeId
    rw [List.forall_mem_append]
    simp only [Option.mem_toList]
    rw [← haccess, ← hid]
    simp [Scope.edited]
  rw [← hlists]
  refine and_iff_left_of_imp fun heq hgone l hl attrs hattrs => ?_
  rw [heq] at hl
  obtain ⟨l₀, -, rfl⟩ := List.mem_map.mp hl
  obtain ⟨attrs₀, -, rfl⟩ := List.mem_map.mp hattrs
  exact op.not_mem_onList hgone attrs₀

end Lists

/-- One attribute, and one scope that maps the attributes of a text to access tokens. -/
def attrWorld (attrs : String) : World where
  clock := 0
  issued := []
  db := Function.update
    (Function.update (fun _ => []) .userAttrConfig
      [({ name := "dept", desc := none } : UserAttrConfigEntity)])
    .scopes
    [({ id := "s", name := "work", attrIncludeAccess := some attrs, attrIncludeId := none } : Scope)]
  cache := fun _ _ => none

/-- Finding the attribute and the scopes, storing the scope, and the rest. -/
def attrChoices : List Choice :=
  [.miss, .ok, .ok, .ok, .miss, .ok, .ok, .ok, .ok, .ok, .ok, .ok, .ok, .ok, .ok, .miss, .ok, .ok, .ok]

theorem fresh_attrWorld (attrs : String) : scopeListing.Fresh (attrWorld attrs) :=
  fun _ _ hv => by cases hv

theorem uniqueScopes_attrWorld (attrs : String) :
    UniqueKey Scope.id ((attrWorld attrs).db .scopes) := List.nodup_singleton _

/-- The first of two attributes is deleted. -/
theorem attributes_iff_dept : ∃ w', Exec sem (AttrChange.delete "dept").prog (attrWorld "dept,role")
      (.ok ()) w' ∧
    attrLists w' = [("s", [["role"], []])] := by
  obtain ⟨r, w', hx, hr⟩ := Pool.exists_exec_of_choices Op.run (AttrChange.delete "dept").prog
    attrChoices (attrWorld "dept,role") (fun r _ => r.isOk) (by decide +kernel)
  rcases r with e | ⟨⟩
  · cases hr
  refine ⟨w', hx, ?_⟩
  have hlists := (attributes_iff (.delete "dept") (by decide) trivial (uniqueScopes_attrWorld _)
    (fresh_attrWorld _) hx).mpr (by
      show ∀ t ∈ ["dept,role"], RemovableAttr "dept" t
      rw [List.forall_mem_singleton]
      exact fun _ => .inr (by decide))
  exact hlists.1.trans (by decide)

/-- Deleting `dept` breaks `dept_id`. -/
theorem delete_breaks_attribute :
    ¬ ∀ (op : AttrChange) (w w' : World), reAttr op.name = true → op.NewNameOk →
      UniqueKey Scope.id (w.db .scopes) → scopeListing.Fresh w →
      Exec sem op.prog w (.ok ()) w' →
      attrLists w' = (attrLists w).map (onLists op.onList) ∧
        (op.Gone → ∀ l ∈ attrLists w', ∀ attrs ∈ l.2, op.name ∉ attrs) := by
  intro hall
  obtain ⟨r, w', hx, hr⟩ := Pool.exists_exec_of_choices Op.run (AttrChange.delete "dept").prog
    attrChoices (attrWorld "dept_id,role")
    (fun r w' => r.isOk && attrLists w' == [("s", [["_id", "role"], []])])
    (by decide +kernel)
  rcases r with e | ⟨⟩
  · cases hr
  have hlists := (hall (.delete "dept") _ w' (by decide) trivial (uniqueScopes_attrWorld _)
    (fresh_attrWorld _) hx).1
  have hread : attrLists w' = [("s", [["_id", "role"], []])] := beq_iff_eq.mp hr
  rw [hread] at hlists
  exact absurd hlists (by decide)

end Rauthy
