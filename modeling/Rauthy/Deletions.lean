/-
Rauthy/Deletions.lean

A role, a group or a scope is deleted, and every user or client has to lose it.  The name is
cut out of their texts: with the comma behind it if the text starts with the name, else
with the comma before it.  Both are searched for in the whole text.

Main result: `deletions_iff`.  A deletion removes exactly the elements that are the name if
and only if the texts are `Removable`: no other element may end (or start) with the name.
-/
import Rauthy.Renames

namespace Rauthy

open Prog

/-! ### One text -/

/-- A list of names without one of them. -/
def without (name : String) (names : List String) : List String := names.filter (· ≠ name)

/-- What a text that contains the name has to be like. -/
def Removable (name text : String) : Prop :=
  Text.contains text name = true →
    if ',' ∈ name.toList then
      -- the name is no element at all, so that nothing may be cut out
      text ≠ name ∧ Text.contains text
        (if Text.startsWith text name = true then name ++ "," else "," ++ name) = false
    else if Text.startsWith text name = true then
      text = name ∨ Csv.EndsOnly name.toList (text.toList.splitOn ',')
    else ∀ a ∈ (Text.split ',' text).tail, Text.startsWith a name = true → a = name

section Texts

variable {name text : String}

theorem deleteFromCsv_of_not_contains (h : ¬ Text.contains text name = true) :
    deleteFromCsv text name = some text := by
  rw [deleteFromCsv, Text.find_eq_none_iff.mpr h]

theorem deleteFromCsv_self (name : String) : deleteFromCsv name name = none := by
  have hfind : Text.find name name = some 0 :=
    Text.find_eq_zero_iff.mpr (Text.startsWith_iff.mpr (List.prefix_refl _))
  rw [deleteFromCsv, hfind]
  simp

theorem deleteFromCsv_of_startsWith (h : Text.startsWith text name = true) (hne : text ≠ name) :
    deleteFromCsv text name = some (Text.replace text (name ++ ",") "") := by
  have hlen : Text.len name < Text.len text :=
    (Text.len_lt_iff_of_prefix (Text.startsWith_iff.mp h)).mpr hne
  rw [deleteFromCsv, Text.find_eq_zero_iff.mpr h]
  dsimp only
  rw [if_pos rfl, if_pos hlen]

theorem deleteFromCsv_of_inside (hin : Text.contains text name = true)
    (h : ¬ Text.startsWith text name = true) :
    deleteFromCsv text name = some (Text.replace text ("," ++ name) "") := by
  rcases hfind : Text.find text name with - | i
  · exact absurd hin (Text.find_eq_none_iff.mp hfind)
  · have hi : i ≠ 0 := by
      rintro rfl
      exact h (Text.find_eq_zero_iff.mp hfind)
    rw [deleteFromCsv, hfind]
    dsimp only
    rw [if_neg hi]

theorem eq_of_deleteFromCsv_eq_none (h : deleteFromCsv text name = none) : text = name := by
  by_contra hne
  by_cases hin : Text.contains text name = true
  · by_cases hstart : Text.startsWith text name = true
    · rw [deleteFromCsv_of_startsWith hstart hne] at h
      cases h
    · rw [deleteFromCsv_of_inside hin hstart] at h
      cases h
  · rw [deleteFromCsv_of_not_contains hin] at h
    cases h

theorem without_ofList (name : String) (l : List (List Char)) :
    without name (l.map String.ofList) = (l.filter (· ≠ name.toList)).map String.ofList := by
  rw [without, List.filter_map]
  refine congrArg _ (List.filter_congr fun a _ => ?_)
  have heq : String.ofList a = name ↔ a = name.toList := by
    rw [← String.toList_inj, String.toList_ofList]
  simp [heq]

theorem split_inj {s t : String} : Text.split ',' s = Text.split ',' t ↔ s = t := by
  rw [Text.split_eq, Text.split_eq, List.map_inj_right ofList_injective, Csv.splitOn_inj,
    String.toList_inj]

theorem without_split_of_comma (hc : ',' ∈ name.toList) :
    without name (Text.split ',' text) = Text.split ',' text := by
  rw [without, List.filter_eq_self]
  intro a ha
  rw [Text.split_eq, List.mem_map] at ha
  obtain ⟨cell, hcell, rfl⟩ := ha
  rw [decide_eq_true_eq]
  rintro rfl
  rw [String.toList_ofList] at hc
  exact Csv.not_mem_of_mem_splitOn hcell hc

theorem without_split_of_not_contains (h : ¬ Text.contains text name = true) :
    without name (Text.split ',' text) = Text.split ',' text := by
  rw [without, List.filter_eq_self]
  intro a ha
  rw [Text.split_eq, List.mem_map] at ha
  obtain ⟨cell, hcell, rfl⟩ := ha
  rw [decide_eq_true_eq]
  rintro rfl
  have hc : ',' ∉ cell := Csv.not_mem_of_mem_splitOn hcell
  rw [Text.contains_iff, String.toList_ofList, Csv.infix_iff_splitOn hc] at h
  exact h ⟨cell, hcell, List.infix_rfl⟩

theorem without_split_self (hc : ',' ∉ name.toList) : without name (Text.split ',' name) = [] := by
  rw [Text.split_eq, Csv.splitOn_cell hc, without, List.map_singleton, String.ofList_toList,
    List.filter_cons_of_neg (by simp)]
  rfl

theorem split_replace_empty_iff {part : String} (hp : part ≠ "") :
    Text.split ',' (Text.replace text part "") = Text.split ',' text ↔
      Text.contains text part = false := by
  have hne : part.toList ≠ [] := fun h => hp (String.toList_eq_nil_iff.mp h)
  rw [split_inj, ← String.toList_inj, Text.toList_replace, Csv.replace_eq_self_iff hne,
    String.toList_empty, or_iff_right hne, ← Text.contains_iff, Bool.not_eq_true]

/-- **Deleting from a text that goes on behind the name.** -/
theorem split_delete_start_iff (hin : Text.contains text name = true)
    (hstart : Text.startsWith text name = true) (hne : text ≠ name) :
    Text.split ',' (Text.replace text (name ++ ",") "") = without name (Text.split ',' text) ↔
      Removable name text := by
  unfold Removable
  rw [if_pos hstart, if_pos hstart, forall_prop_of_true hin]
  by_cases hc : ',' ∈ name.toList
  · rw [if_pos hc, without_split_of_comma hc, split_replace_empty_iff (by simp)]
    exact (and_iff_right hne).symm
  · rw [if_neg hc, or_iff_right hne, ← Csv.splitOn_replace_ends hc]
    rw [Text.split_eq, Text.split_eq, without_ofList, List.map_inj_right ofList_injective,
      Text.toList_replace, String.toList_append]
    rfl

/-- **Deleting from a text that starts otherwise.** -/
theorem split_delete_inside_iff (hin : Text.contains text name = true)
    (hstart : ¬ Text.startsWith text name = true) :
    Text.split ',' (Text.replace text ("," ++ name) "") = without name (Text.split ',' text) ↔
      Removable name text := by
  unfold Removable
  rw [if_neg hstart, if_neg hstart, forall_prop_of_true hin]
  by_cases hc : ',' ∈ name.toList
  · have hne : text ≠ name := by
      rintro rfl
      exact hstart (Text.startsWith_iff.mpr (List.prefix_refl _))
    rw [if_pos hc, without_split_of_comma hc, split_replace_empty_iff (by simp)]
    exact (and_iff_right hne).symm
  · have htail : (∀ a ∈ (Text.split ',' text).tail, Text.startsWith a name = true → a = name) ↔
        ∀ a ∈ (text.toList.splitOn ',').tail, name.toList <+: a → a = name.toList := by
      rw [Text.split_eq, ← List.map_tail, List.forall_mem_map]
      refine forall₂_congr fun a _ => ?_
      rw [Text.startsWith_iff, ← String.toList_inj, String.toList_ofList]
    rw [if_neg hc, htail, Text.split_eq, Text.split_eq, without_ofList,
      List.map_inj_right ofList_injective, Text.toList_replace, String.toList_append,
      String.toList_empty]
    rw [Text.startsWith_iff] at hstart
    show (Csv.replace (',' :: name.toList) [] text.toList).splitOn ',' = _ ↔ _
    exact Csv.splitOn_replace_inside_iff hc hstart

theorem trim_split_of_noSpace (h : NoSpace text) :
    (Text.split ',' text).map Text.trim = Text.split ',' text := by
  rw [Text.split_eq, List.map_map]
  refine List.map_congr_left fun a ha => ?_
  have hblank : ∀ c ∈ a, Text.isWhitespace c = false := by
    intro c hc
    have hcomma : c ≠ ',' := by
      rintro rfl
      exact Csv.not_mem_of_mem_splitOn ha hc
    exact h c ((Csv.mem_iff_splitOn hcomma).mpr ⟨a, ha, hc⟩)
  rw [Function.comp_apply, ← String.toList_inj, Text.toList_trim, String.toList_ofList,
    Csv.trim_of_no_blank hblank]

theorem noSpace_replace_empty {part : String} (hp : part ≠ "") (h : NoSpace text) :
    NoSpace (Text.replace text part "") := by
  intro c hc
  rw [Text.toList_replace] at hc
  exact h c (Csv.mem_of_mem_replace_nil (fun he => hp (String.toList_eq_nil_iff.mp he)) hc)

theorem noSpace_deleteFromCsv {t : String} (h : NoSpace text)
    (ht : deleteFromCsv text name = some t) : NoSpace t := by
  by_cases hin : Text.contains text name = true
  · by_cases hstart : Text.startsWith text name = true
    · by_cases hne : text = name
      · rw [hne, deleteFromCsv_self] at ht
        cases ht
      · rw [deleteFromCsv_of_startsWith hstart hne] at ht
        cases ht
        exact noSpace_replace_empty (by simp) h
    · rw [deleteFromCsv_of_inside hin hstart] at ht
      cases ht
      exact noSpace_replace_empty (by simp) h
  · rw [deleteFromCsv_of_not_contains hin] at ht
    cases ht
    exact h

/-- The elements of a text that may have gone. -/
def elements (text : Option String) : List String := text.elim [] (Text.split ',')

/-- **Deleting from one text.** -/
theorem elements_delete_iff (text : String) (hname : reGroups name = true) :
    elements (deleteFromCsv text name) = without name (Text.split ',' text) ↔
      Removable name text := by
  by_cases hin : Text.contains text name = true
  · by_cases hstart : Text.startsWith text name = true
    · by_cases hne : text = name
      · subst hne
        rw [deleteFromCsv_self]
        unfold Removable
        rw [forall_prop_of_true hin, if_pos hstart, if_pos hstart]
        by_cases hc : ',' ∈ text.toList
        · rw [if_pos hc, without_split_of_comma hc]
          have hsplit : Text.split ',' text ≠ [] := by
            rw [Text.split_eq, ne_eq, List.map_eq_nil_iff]
            exact List.splitOn_ne_nil _ _
          exact iff_of_false (Ne.symm hsplit) fun h => h.1 rfl
        · rw [if_neg hc, without_split_self hc]
          exact iff_of_true rfl (.inl rfl)
      · rw [deleteFromCsv_of_startsWith hstart hne]
        exact split_delete_start_iff hin hstart hne
    · rw [deleteFromCsv_of_inside hin hstart]
      exact split_delete_inside_iff hin hstart
  · rw [deleteFromCsv_of_not_contains hin]
    refine iff_of_true ?_ fun h => absurd h hin
    exact (without_split_of_not_contains hin).symm

/-- Only the first element of a text can be at its front. -/
theorem startsWith_of_all (hall : ∀ a ∈ text.toList.splitOn ',', a = name.toList) :
    ',' ∉ name.toList ∧ Text.startsWith text name = true := by
  obtain ⟨a, l, hsplit⟩ := List.exists_cons_of_ne_nil (List.splitOn_ne_nil ',' text.toList)
  have ha : a ∈ text.toList.splitOn ',' := by
    rw [hsplit]
    exact List.mem_cons_self
  have hname := hall a ha
  have hc : ',' ∉ name.toList := by
    rw [← hname]
    exact Csv.not_mem_of_mem_splitOn ha
  refine ⟨hc, ?_⟩
  have hjoin : [','].intercalate (text.toList.splitOn ',') = text.toList :=
    List.intercalate_splitOn ','
  rw [Text.startsWith_iff, ← hjoin, hsplit, hname]
  rcases l with - | ⟨b, l⟩
  · simp
  · rw [List.intercalate_cons_cons, List.append_assoc]
    exact List.prefix_append _ _

theorem without_ne_nil_of_empty (hname : reGroups name = true)
    (h : deleteFromCsv text name = some "") (hin : Text.contains text name = true) :
    without name (Text.split ',' text) ≠ [] := by
  intro hnil
  have hall : ∀ a ∈ text.toList.splitOn ',', a = name.toList := by
    rw [Text.split_eq, without_ofList, List.map_eq_nil_iff, List.filter_eq_nil_iff] at hnil
    intro a ha
    simpa using hnil a ha
  obtain ⟨hc, hstart⟩ := startsWith_of_all hall
  have hne : text ≠ name := by
    rintro rfl
    rw [deleteFromCsv_self] at h
    cases h
  rw [deleteFromCsv_of_startsWith hstart hne, Option.some.injEq, ← String.toList_inj,
    Text.toList_replace, String.toList_append, String.toList_empty] at h
  exact Csv.replace_ends_ne_nil (ne_nil_of_reGroups hname) hc hall h

end Texts

/-! ### One user, one client -/

/-- Roles: a text that becomes empty is read as no role at all. -/
def RemovableRole (name text : String) : Prop :=
  Removable name text ∧
    (Text.contains text name = true → without name (Text.split ',' text) ≠ [""])

/-- Scopes: an empty text is read as one scope without a name. -/
def RemovableScope (name text : String) : Prop := Removable name text ∧ text ≠ name

/-- Default scopes are looked at only if the scopes contain the name. -/
def RemovableDefault (name : String) (c : Client) : Prop :=
  if Text.contains c.scopes name = true then RemovableScope name c.defaultScopes
  else name ∉ Text.split ',' c.defaultScopes

section Getters

variable {name : String}

theorem split_empty : Text.split ',' "" = [""] := by decide

theorem deleteRole_iff (hname : reGroups name = true) {u : User} (hu : NoSpace u.roles) :
    (u.deleteRole name).getRoles = without name u.getRoles ↔ RemovableRole name u.roles := by
  unfold User.getRoles
  show (if (deleteFromCsv u.roles name).getD "" = "" then [] else
    (Text.split ',' ((deleteFromCsv u.roles name).getD "")).map Text.trim) = _ ↔ _
  unfold RemovableRole
  rw [trim_split_of_noSpace hu]
  by_cases hin : Text.contains u.roles name = true
  swap
  · rw [deleteFromCsv_of_not_contains hin, Option.getD_some, trim_split_of_noSpace hu]
    refine iff_of_true ?_ ⟨fun h => absurd h hin, fun h => absurd h hin⟩
    split
    · rfl
    · exact (without_split_of_not_contains hin).symm
  have hroles : u.roles ≠ "" := by
    intro h
    rw [h, Text.contains_iff, String.toList_empty, List.infix_nil] at hin
    exact ne_nil_of_reGroups hname hin
  have hone := elements_delete_iff u.roles hname
  rw [if_neg hroles, forall_prop_of_true hin]
  rcases hd : deleteFromCsv u.roles name with - | t
  · rw [hd] at hone
    rw [Option.getD_none, if_pos rfl, ← hone]
    refine ⟨fun h => ⟨h, ?_⟩, And.left⟩
    rw [← h]
    simp
  rw [hd] at hone
  rw [Option.getD_some]
  by_cases ht : t = ""
  · subst ht
    rw [if_pos rfl, ← hone]
    refine iff_of_false (Ne.symm (without_ne_nil_of_empty hname hd hin)) fun h => h.2 ?_
    rw [← h.1]
    exact split_empty
  · rw [if_neg ht, trim_split_of_noSpace (noSpace_deleteFromCsv hu hd), ← hone]
    refine ⟨fun h => ⟨h, ?_⟩, And.left⟩
    rw [← h, ← split_empty, ne_eq, split_inj]
    exact ht

theorem deleteGroup_iff (hname : reGroups name = true) {u : User}
    (hu : ∀ gs, u.groups = some gs → NoSpace gs) :
    (u.deleteGroup name).getGroups = without name u.getGroups ↔
      ∀ gs, u.groups = some gs → Removable name gs := by
  unfold User.getGroups User.deleteGroup
  rcases hgs : u.groups with - | gs
  · exact iff_of_true rfl fun gs h => by cases h
  have hspace := hu gs hgs
  have hone := elements_delete_iff gs hname
  have hall : (∀ gs', some gs = some gs' → Removable name gs') ↔ Removable name gs :=
    ⟨fun h => h gs rfl, fun h gs' he => Option.some.inj he ▸ h⟩
  rw [hall, ← hone, Option.bind_some]
  dsimp only
  rw [trim_split_of_noSpace hspace]
  rcases hd : deleteFromCsv gs name with - | t
  · exact Iff.rfl
  · dsimp only
    rw [trim_split_of_noSpace (noSpace_deleteFromCsv hspace hd)]
    exact Iff.rfl

theorem split_getD_delete_iff (hname : reGroups name = true) {text : String} (htext : NoSpace text) :
    (Text.split ',' ((deleteFromCsv text name).getD "")).map Text.trim =
      without name ((Text.split ',' text).map Text.trim) ↔ RemovableScope name text := by
  have hone := elements_delete_iff text hname
  rw [trim_split_of_noSpace htext]
  unfold RemovableScope
  by_cases hne : text = name
  · subst hne
    rw [deleteFromCsv_self, Option.getD_none]
    refine iff_of_false ?_ fun h => h.2 rfl
    have hread : (Text.split ',' "").map Text.trim = [""] := by decide
    rw [hread]
    intro h
    by_cases hc : ',' ∈ text.toList
    · rw [without_split_of_comma hc, ← split_empty, split_inj] at h
      exact ne_nil_of_reGroups hname (by rw [← h]; rfl)
    · rw [without_split_self hc] at h
      cases h
  · rcases hd : deleteFromCsv text name with - | t
    · exact absurd (eq_of_deleteFromCsv_eq_none hd) hne
    · rw [hd] at hone
      rw [Option.getD_some, trim_split_of_noSpace (noSpace_deleteFromCsv htext hd), ← hone]
      exact (and_iff_left hne).symm

theorem deleteScope_iff (hname : reGroups name = true) {c : Client} (hc : NoSpace c.scopes) :
    (c.deleteScope name).getScopes = without name c.getScopes ↔ RemovableScope name c.scopes := by
  rw [← split_getD_delete_iff hname hc]
  unfold Client.deleteScope
  split
  · next h =>
      -- the name is not there
      rw [deleteFromCsv_of_not_contains (Text.find_eq_none_iff.mp h)]
      exact Iff.rfl
  · exact Iff.rfl

theorem deleteDefaultScope_iff (hname : reGroups name = true) {c : Client}
    (hc : NoSpace c.defaultScopes) :
    (c.deleteScope name).getDefaultScopes = without name c.getDefaultScopes ↔
      RemovableDefault name c := by
  unfold Client.deleteScope RemovableDefault
  by_cases hin : Text.contains c.scopes name = true
  · rw [if_neg fun h => Text.find_eq_none_iff.mp h hin, if_pos hin, ← split_getD_delete_iff hname hc]
    exact Iff.rfl
  · rw [if_pos (Text.find_eq_none_iff.mpr hin), if_neg hin]
    unfold Client.getDefaultScopes
    rw [trim_split_of_noSpace hc, without, eq_comm, List.filter_eq_self]
    simp only [decide_eq_true_eq]
    exact ⟨fun h hmem => h name hmem rfl, fun h a ha he => h (he ▸ ha)⟩

end Getters

/-! ### All users, all clients -/

namespace NameKind

/-- The request that deletes what has the id. -/
def delete (data : AppState) (id : String) : NameKind → M ErrorResponse Unit
  | role => Role.delete id
  | group => Group.delete id
  | scope => Scope.delete data id

/-- The texts of all users or clients are as they have to be. -/
def RemovableFrom (w : World) (name : String) : NameKind → Prop
  | role => ∀ u ∈ w.db .users, RemovableRole name u.roles
  | group => ∀ u ∈ w.db .users, ∀ gs, u.groups = some gs → Removable name gs
  | scope => ∀ c ∈ w.db .clients, RemovableScope name c.scopes ∧ RemovableDefault name c

end NameKind

section Rows

variable {w w' : World} {name : String}

theorem deleteRole_eq (name : String) (u : User) :
    (if Text.contains u.roles name = true then u.deleteRole name else u) = u.deleteRole name := by
  split
  · rfl
  · next h =>
      unfold User.deleteRole
      rw [deleteFromCsv_of_not_contains h, Option.getD_some]

theorem deleteGroup_eq (name : String) (u : User) :
    (if u.groups.any (Text.contains · name) = true then u.deleteGroup name else u) =
      u.deleteGroup name := by
  split
  · rfl
  · next h =>
      unfold User.deleteGroup
      have hgroups : u.groups.bind (deleteFromCsv · name) = u.groups := by
        rcases hgs : u.groups with - | gs
        · rfl
        · rw [hgs] at h
          exact deleteFromCsv_of_not_contains h
      rw [hgroups]

theorem deleteScope_eq (name : String) (c : Client) :
    (if Scope.isIn name c = true then c.deleteScope name else c) = c.deleteScope name := by
  split
  · rfl
  · next h =>
      rw [Scope.isIn, Bool.or_eq_true, not_or] at h
      rw [Client.deleteScope, if_pos (Text.find_eq_none_iff.mpr h.1)]

theorem roles_without_iff (hname : reGroups name = true) {users : List User}
    (hspace : ∀ text ∈ users.map User.roles, NoSpace text) :
    (users.map (·.deleteRole name)).map (fun u => (u.id, [u.getRoles])) =
      (users.map fun u => (u.id, [u.getRoles])).map (onLists (without name)) ↔
        ∀ u ∈ users, RemovableRole name u.roles := by
  refine lists_map_iff (f := fun u : User => u.deleteRole name) (fun _ => rfl) fun u hu => ?_
  rw [← deleteRole_iff hname (hspace _ (List.mem_map_of_mem hu))]
  simp

theorem groups_without_iff (hname : reGroups name = true) {users : List User}
    (hspace : ∀ text ∈ users.filterMap User.groups, NoSpace text) :
    (users.map (·.deleteGroup name)).map (fun u => (u.id, [u.getGroups])) =
      (users.map fun u => (u.id, [u.getGroups])).map (onLists (without name)) ↔
        ∀ u ∈ users, ∀ gs, u.groups = some gs → Removable name gs := by
  refine lists_map_iff (f := fun u : User => u.deleteGroup name) (fun _ => rfl) fun u hu => ?_
  rw [← deleteGroup_iff hname fun gs hgs => hspace gs (List.mem_filterMap.mpr ⟨u, hu, hgs⟩)]
  simp

theorem scopes_without_iff (hname : reGroups name = true) {clients : List Client}
    (hspace : ∀ text ∈ clients.flatMap (fun c => [c.scopes, c.defaultScopes]), NoSpace text) :
    (clients.map (·.deleteScope name)).map (fun c => (c.id, [c.getScopes, c.getDefaultScopes])) =
      (clients.map fun c => (c.id, [c.getScopes, c.getDefaultScopes])).map
        (onLists (without name)) ↔
          ∀ c ∈ clients, RemovableScope name c.scopes ∧ RemovableDefault name c := by
  refine lists_map_iff (f := fun c : Client => c.deleteScope name)
    (fun c => c.deleteScope_id name) fun c hc => ?_
  have hin : ∀ text ∈ [c.scopes, c.defaultScopes], NoSpace text := fun text ht =>
    hspace text (List.mem_flatMap.mpr ⟨c, hc, ht⟩)
  rw [← deleteScope_iff hname (hin _ (by simp)), ← deleteDefaultScope_iff hname (hin _ (by simp))]
  simp

theorem lists_without_iff (data : AppState) (kind : NameKind) {id : String}
    (hname : reGroups name = true) (hu : UniqueKey User.id (w.db .users))
    (hc : UniqueKey Client.id (w.db .clients)) (hid : kind.Names w id name)
    (hspace : ∀ text ∈ kind.texts w, NoSpace text)
    (h : Exec sem (kind.delete data id) w (.ok ()) w') :
    kind.lists w' = (kind.lists w).map (onLists (without name)) ↔ kind.RemovableFrom w name := by
  cases kind with
  | role =>
      obtain ⟨role, hhas, -, hedit⟩ := Role.delete_ok hu h
      obtain ⟨role', hhas', rfl⟩ := hid
      obtain rfl : role = role' := Option.some.inj (hhas.symm.trans hhas')
      have hrows := hedit.rows (by simp [DbWrite.table])
      simp only [deleteRole_eq] at hrows
      show (w'.db .users).map _ = _ ↔ _
      rw [hrows]
      exact roles_without_iff hname hspace
  | group =>
      obtain ⟨group, hhas, hedit⟩ := Group.delete_ok hu h
      obtain ⟨group', hhas', rfl⟩ := hid
      obtain rfl : group = group' := Option.some.inj (hhas.symm.trans hhas')
      have hrows := hedit.rows (by simp [DbWrite.table])
      simp only [deleteGroup_eq] at hrows
      show (w'.db .users).map _ = _ ↔ _
      rw [hrows]
      exact groups_without_iff hname hspace
  | scope =>
      obtain ⟨scope, hhas, -, hedit⟩ := Scope.delete_ok hc h
      obtain ⟨scope', hhas', rfl⟩ := hid
      obtain rfl : scope = scope' := Option.some.inj (hhas.symm.trans hhas')
      have hrows := hedit.rows (by simp [DbWrite.table])
      simp only [deleteScope_eq] at hrows
      show (w'.db .clients).map _ = _ ↔ _
      rw [hrows]
      exact scopes_without_iff hname hspace

/-- **Deletions**, of one user or client and of all of them, remove exactly the elements that are
the name if and only if their texts are removable. -/
theorem deletions_iff (hname : reGroups name = true) :
    (∀ u : User, NoSpace u.roles →
      ((u.deleteRole name).getRoles = without name u.getRoles ↔ RemovableRole name u.roles)) ∧
    (∀ u : User, (∀ gs, u.groups = some gs → NoSpace gs) →
      ((u.deleteGroup name).getGroups = without name u.getGroups ↔
        ∀ gs, u.groups = some gs → Removable name gs)) ∧
    (∀ c : Client, NoSpace c.scopes → NoSpace c.defaultScopes →
      ((c.deleteScope name).getScopes = without name c.getScopes ↔
        RemovableScope name c.scopes) ∧
      ((c.deleteScope name).getDefaultScopes = without name c.getDefaultScopes ↔
        RemovableDefault name c)) ∧
    ∀ (data : AppState) (kind : NameKind) (id : String) (w w' : World),
      UniqueKey User.id (w.db .users) → UniqueKey Client.id (w.db .clients) →
      kind.Names w id name → (∀ text ∈ kind.texts w, NoSpace text) →
      Exec sem (kind.delete data id) w (.ok ()) w' →
      (kind.lists w' = (kind.lists w).map (onLists (without name)) ↔ kind.RemovableFrom w name) := by
  refine ⟨fun u hu => deleteRole_iff hname hu, fun u hu => deleteGroup_iff hname hu,
    fun c hs hd => ⟨deleteScope_iff hname hs, deleteDefaultScope_iff hname hd⟩, ?_⟩
  intro data kind id w w' hu hc hid hspace h
  exact lists_without_iff data kind hname hu hc hid hspace h

end Rows

/-- Alice loses the second of her three roles. -/
theorem deletions_iff_alice :
    (User.deleteRole { sampleUser with roles := "editor,admin,ops" } "admin").getRoles =
      ["editor", "ops"] := by
  have hspace : NoSpace "editor,admin,ops" := by decide
  have h := ((@deletions_iff "admin" (by decide)).1
    { sampleUser with roles := "editor,admin,ops" } hspace).mpr
    ⟨fun _ => by decide, fun _ => by decide⟩
  rw [h]
  decide

/-- Deleting `admin` from `admin_x,admin` leaves it there. -/
theorem delete_leaves_name :
    ¬ ∀ (name : String), reGroups name = true → ∀ (data : AppState) (kind : NameKind) (id : String)
      (w w' : World), UniqueKey User.id (w.db .users) → UniqueKey Client.id (w.db .clients) →
      kind.Names w id name → (∀ text ∈ kind.texts w, NoSpace text) →
      Exec sem (kind.delete data id) w (.ok ()) w' →
      kind.lists w' = (kind.lists w).map (onLists (without name)) := by
  intro hall
  obtain ⟨r, w', hx, hr⟩ := Pool.exists_exec_of_choices Op.run
    (NameKind.role.delete sampleState "role")
    [.ok, .ok, .ok, .ok, .ok, .ok, .ok, .ok, .ok, .miss, .ok, .ok, .ok]
    (roleWorld "admin" "admin_x,admin")
    (fun r w' => r.isOk && (w'.db .users).map User.roles == ["admin_x,admin"])
    (by decide +kernel)
  rcases r with e | ⟨⟩
  · cases hr
  have hspace : ∀ text ∈ NameKind.role.texts (roleWorld "admin" "admin_x,admin"), NoSpace text := by
    show ∀ text ∈ ["admin_x,admin"], _
    rw [List.forall_mem_singleton]
    decide
  have hlists := hall "admin" (by decide) sampleState .role "role" _ w' (uniqueUsers_roleWorld _ _)
    (uniqueClients_roleWorld _ _) ⟨_, rfl, rfl⟩ hspace hx
  have hroles : (w'.db .users).map User.roles = ["admin_x,admin"] := beq_iff_eq.mp hr
  obtain ⟨u, hu, hrole⟩ := List.map_eq_singleton_iff.mp hroles
  have hget : u.getRoles = ["admin_x", "admin"] := by
    unfold User.getRoles
    rw [hrole]
    decide
  have hread : NameKind.role.lists w' = [(u.id, [["admin_x", "admin"]])] := by
    show (w'.db .users).map _ = _
    rw [hu, List.map_singleton, hget]
  rw [hread] at hlists
  exact absurd hlists (by
    show ¬ [(u.id, [["admin_x", "admin"]])] = [("alice", [["admin_x"]])]
    simp)

end Rauthy
