/-
Rauthy/Renames.lean

A role, a group or a scope gets another name, and every user or client that has it.  Their
lists are texts with commas, and the old name is replaced wherever the text contains it.

Main result: `lists_renamed_iff`.  After the operation, all lists are the previous ones with
the elements renamed that are the old name, if and only if no text contains the old name
other than as an element of its own.
-/
import Rauthy.Transactions
import Rauthy.Validation

namespace Rauthy

open Prog

/-! ### One text -/

/-- A list of names with one of them renamed. -/
def renamed (old new : String) (names : List String) : List String :=
  names.map fun a => if a = old then new else a

/-- The text contains the name `old` only as an element, and both names are one element each;
or there is nothing to rename. -/
def NamedCleanly (old new text : String) : Prop :=
  old = new ∨ Text.contains text old = false ∨
    ',' ∉ old.toList ∧ ',' ∉ new.toList ∧
      ∀ a ∈ Text.split ',' text, Text.contains a old = true → Text.trim a = old

section Texts

variable {old new text : String}

theorem Text.trim_split (s : String) : (Text.split ',' s).map Text.trim =
    ((s.toList.splitOn ',').map (Csv.trim Text.isWhitespace)).map String.ofList := by
  rw [Text.split_eq, List.map_map, List.map_map]
  refine List.map_congr_left fun a _ => ?_
  rw [Function.comp_apply, Function.comp_apply, ← String.toList_inj, Text.toList_trim,
    String.toList_ofList, String.toList_ofList]

theorem renamed_ofList (old new : String) (l : List (List Char)) :
    renamed old new (l.map String.ofList) =
      (l.map fun a => if a = old.toList then new.toList else a).map String.ofList := by
  rw [renamed, List.map_map, List.map_map]
  refine List.map_congr_left fun a _ => ?_
  have heq : String.ofList a = old ↔ a = old.toList := by
    rw [← String.toList_inj, String.toList_ofList]
  rw [Function.comp_apply, Function.comp_apply]
  by_cases h : a = old.toList
  · rw [if_pos (heq.mpr h), if_pos h, String.ofList_toList]
  · rw [if_neg fun h' => h (heq.mp h'), if_neg h]

theorem ofList_injective : Function.Injective String.ofList := fun a b h => by
  rw [← String.toList_ofList (l := a), h, String.toList_ofList]

/-- **Renaming in one text**, of which the elements are trimmed when it is read. -/
theorem split_replace_iff (hold : reGroups old = true) (hnew : reGroups new = true) :
    (Text.split ',' (Text.replace text old new)).map Text.trim =
      renamed old new ((Text.split ',' text).map Text.trim) ↔ NamedCleanly old new text := by
  rw [Text.trim_split, Text.trim_split, renamed_ofList, List.map_inj_right ofList_injective,
    Text.toList_replace, Csv.trim_splitOn_replace_iff (ne_nil_of_reGroups hold)
      (noSpace_of_reGroups hold) (noSpace_of_reGroups hnew) (by decide)]
  unfold NamedCleanly
  rw [String.toList_inj, ← Text.contains_iff, Bool.not_eq_true]
  have hcells : (∀ a ∈ text.toList.splitOn ',', old.toList <:+: a →
      Csv.trim Text.isWhitespace a = old.toList) ↔
      ∀ a ∈ Text.split ',' text, Text.contains a old = true → Text.trim a = old := by
    rw [Text.split_eq, List.forall_mem_map]
    refine forall₂_congr fun a _ => ?_
    rw [Text.contains_iff, ← String.toList_inj, Text.toList_trim, String.toList_ofList]
  rw [hcells]

/-- The edited text is that of a user or client which is not saved. -/
theorem replace_of_not_contains (hold : reGroups old = true) (h : ¬ Text.contains text old = true) :
    Text.replace text old new = text := by
  rw [Text.contains_iff] at h
  rw [← String.toList_inj, Text.toList_replace]
  exact Csv.replace_eq_self (ne_nil_of_reGroups hold) h

theorem replace_ne_empty (hold : reGroups old = true) (hnew : reGroups new = true)
    (htext : text ≠ "") : Text.replace text old new ≠ "" := by
  intro h
  have hne : text.toList ≠ [] := fun h => htext (String.toList_eq_nil_iff.mp h)
  have hp := ne_nil_of_reGroups hold
  have hnil : Csv.replace old.toList new.toList text.toList = [] := by
    rw [← Text.toList_replace, h, String.toList_empty]
  induction hs : text.toList using Csv.search_induction hp with
  | nil => exact hne hs
  | found xs _ =>
      rw [hs, Csv.replace_found hp, List.append_eq_nil_iff] at hnil
      exact ne_nil_of_reGroups hnew hnil.1
  | other x xs hx _ =>
      rw [hs, Csv.replace_other hp hx] at hnil
      exact List.cons_ne_nil _ _ hnil

end Texts

/-! ### All users, all clients -/

/-- What has a name: users name roles and groups, clients name scopes. -/
inductive NameKind where
  | role
  | group
  | scope

namespace NameKind

/-- The row with the id has this name. -/
def Names (w : World) (id name : String) : NameKind → Prop
  | role => ∃ r, roleListing.Has w id r ∧ r.name = name
  | group => ∃ g, groupListing.Has w id g ∧ g.name = name
  | scope => ∃ s, scopeListing.Has w id s ∧ s.name = name

/-- The users, each with its list, or the clients, each with its two lists. -/
def lists (w : World) : NameKind → List (String × List (List String))
  | role => (w.db .users).map fun u => (u.id, [u.getRoles])
  | group => (w.db .users).map fun u => (u.id, [u.getGroups])
  | scope => (w.db .clients).map fun c => (c.id, [c.getScopes, c.getDefaultScopes])

/-- The texts that these lists are read from. -/
def texts (w : World) : NameKind → List String
  | role => (w.db .users).map User.roles
  | group => (w.db .users).filterMap User.groups
  | scope => (w.db .clients).flatMap fun c => [c.scopes, c.defaultScopes]

end NameKind

/-- The requests that change a name. -/
inductive Renaming where
  | role (id newName : String)
  | group (id newName : String)
  | scope (id : String) (req : ScopeRequest)

namespace Renaming

def prog (data : AppState) : Renaming → M ErrorResponse Unit
  | role id newName => do
      let _ ← Role.update id newName
      return ()
  | group id newName => do
      let _ ← Group.update id newName
      return ()
  | scope id req => do
      let _ ← Scope.update data id req
      return ()

def kind : Renaming → NameKind
  | role _ _ => .role
  | group _ _ => .group
  | scope _ _ => .scope

def id : Renaming → String
  | role id _ => id
  | group id _ => id
  | scope id _ => id

def newName : Renaming → String
  | role _ newName => newName
  | group _ newName => newName
  | scope _ req => req.scope

end Renaming

/-- The lists of one user or client, each changed by `g`. -/
def onLists (g : List String → List String) (l : String × List (List String)) :
    String × List (List String) := (l.1, l.2.map g)

theorem lists_map_iff {α : Type} {key : α → String} {ls : α → List (List String)} {f : α → α}
    {g : List String → List String} {rows : List α} {P : α → Prop} (hkey : ∀ r, key (f r) = key r)
    (h : ∀ r ∈ rows, (ls (f r) = (ls r).map g ↔ P r)) :
    (rows.map f).map (fun r => (key r, ls r)) =
      (rows.map fun r => (key r, ls r)).map (onLists g) ↔ ∀ r ∈ rows, P r := by
  rw [List.map_map, List.map_map, List.map_inj_left]
  refine forall₂_congr fun r hr => ?_
  rw [← h r hr]
  simp [onLists, hkey r]

section Rows

variable {w w' : World} {old new : String}

theorem getRoles_renameIn_iff (hold : reGroups old = true) (hnew : reGroups new = true) (u : User) :
    (Role.renameIn old new u).getRoles = renamed old new u.getRoles ↔
      NamedCleanly old new u.roles := by
  rw [← split_replace_iff hold hnew]
  unfold User.getRoles
  show (if Text.replace u.roles old new = "" then _ else (Text.split ',' _).map _) = _ ↔ _
  by_cases hu : u.roles = ""
  · have hempty : ¬ Text.contains "" old = true := by
      rw [Text.contains_iff, String.toList_empty, List.infix_nil]
      exact ne_nil_of_reGroups hold
    rw [hu, replace_of_not_contains hold hempty, if_pos rfl, if_pos rfl]
    refine iff_of_true rfl ?_
    have hne : "" ≠ old := fun h => ne_nil_of_reGroups hold (by rw [← h]; rfl)
    have hsplit : (Text.split ',' "").map Text.trim = [""] := by decide
    rw [hsplit, renamed, List.map_singleton, if_neg hne]
  · rw [if_neg hu, if_neg (replace_ne_empty hold hnew hu)]
    rfl

theorem getGroups_renameIn_iff (hold : reGroups old = true) (hnew : reGroups new = true) (u : User) :
    (Group.renameIn old new u).getGroups = renamed old new u.getGroups ↔
      ∀ gs, u.groups = some gs → NamedCleanly old new gs := by
  unfold User.getGroups Group.renameIn
  rcases u.groups with - | gs
  · exact iff_of_true rfl fun gs h => by cases h
  · dsimp only [Option.map_some]
    rw [split_replace_iff hold hnew]
    exact ⟨fun h gs' he => Option.some.inj he ▸ h, fun h => h gs rfl⟩

theorem getScopes_renameIn_iff (hold : reGroups old = true) (hnew : reGroups new = true)
    (c : Client) :
    (Scope.renameIn old new c).getScopes = renamed old new c.getScopes ↔
      NamedCleanly old new c.scopes := split_replace_iff hold hnew

theorem getDefaultScopes_renameIn_iff (hold : reGroups old = true) (hnew : reGroups new = true)
    (c : Client) :
    (Scope.renameIn old new c).getDefaultScopes = renamed old new c.getDefaultScopes ↔
      NamedCleanly old new c.defaultScopes := split_replace_iff hold hnew

theorem renameIn_roles_eq (hold : reGroups old = true) (u : User) :
    (if Text.contains u.roles old = true then Role.renameIn old new u else u) =
      Role.renameIn old new u := by
  split
  · rfl
  · next h =>
      show u = { u with roles := Text.replace u.roles old new }
      rw [replace_of_not_contains hold h]

theorem renameIn_groups_eq (hold : reGroups old = true) (u : User) :
    (if u.groups.any (Text.contains · old) = true then Group.renameIn old new u else u) =
      Group.renameIn old new u := by
  split
  · rfl
  · next h =>
      show u = { u with groups := u.groups.map (Text.replace · old new) }
      have hgroups : u.groups.map (Text.replace · old new) = u.groups := by
        rcases hg : u.groups with - | gs
        · rfl
        · rw [hg] at h
          exact congrArg some (replace_of_not_contains hold h)
      rw [hgroups]

theorem renameIn_scopes_eq (hold : reGroups old = true) (c : Client) :
    (if Scope.renames old new c = true then Scope.renameIn old new c else c) =
      Scope.renameIn old new c := by
  split
  · rfl
  · next h =>
      have hkeep : ∀ text, text = c.scopes ∨ text = c.defaultScopes →
          Text.replace text old new = text := by
        intro text htext
        rw [Scope.renames, Bool.and_eq_true, not_and_or, decide_eq_true_eq, not_not] at h
        rcases h with rfl | h
        · rw [← String.toList_inj, Text.toList_replace]
          exact Csv.replace_id (ne_nil_of_reGroups hold) _
        · rw [Scope.isIn, Bool.or_eq_true, not_or] at h
          rcases htext with rfl | rfl
          · exact replace_of_not_contains hold h.1
          · exact replace_of_not_contains hold h.2
      show c = { c with
        scopes := Text.replace c.scopes old new
        defaultScopes := Text.replace c.defaultScopes old new }
      rw [hkeep _ (.inl rfl), hkeep _ (.inr rfl)]

theorem roles_renamed_iff (hold : reGroups old = true) (hnew : reGroups new = true)
    (users : List User) :
    (users.map (Role.renameIn old new)).map (fun u => (u.id, [u.getRoles])) =
      (users.map fun u => (u.id, [u.getRoles])).map (onLists (renamed old new)) ↔
        ∀ text ∈ users.map User.roles, NamedCleanly old new text := by
  rw [List.forall_mem_map]
  refine lists_map_iff (f := Role.renameIn old new) (fun _ => rfl) fun u _ => ?_
  rw [← getRoles_renameIn_iff hold hnew u]
  simp

theorem groups_renamed_iff (hold : reGroups old = true) (hnew : reGroups new = true)
    (users : List User) :
    (users.map (Group.renameIn old new)).map (fun u => (u.id, [u.getGroups])) =
      (users.map fun u => (u.id, [u.getGroups])).map (onLists (renamed old new)) ↔
        ∀ text ∈ users.filterMap User.groups, NamedCleanly old new text := by
  have htexts : (∀ text ∈ users.filterMap User.groups, NamedCleanly old new text) ↔
      ∀ u ∈ users, ∀ gs, u.groups = some gs → NamedCleanly old new gs := by
    simp only [List.mem_filterMap]
    exact ⟨fun h u hu gs hgs => h gs ⟨u, hu, hgs⟩, fun h gs ⟨u, hu, hgs⟩ => h u hu gs hgs⟩
  rw [htexts]
  refine lists_map_iff (f := Group.renameIn old new) (fun _ => rfl) fun u _ => ?_
  rw [← getGroups_renameIn_iff hold hnew u]
  simp

theorem scopes_renamed_iff (hold : reGroups old = true) (hnew : reGroups new = true)
    (clients : List Client) :
    (clients.map (Scope.renameIn old new)).map (fun c => (c.id, [c.getScopes, c.getDefaultScopes])) =
      (clients.map fun c => (c.id, [c.getScopes, c.getDefaultScopes])).map (onLists (renamed old new)) ↔
        ∀ text ∈ clients.flatMap (fun c => [c.scopes, c.defaultScopes]),
          NamedCleanly old new text := by
  rw [List.forall_mem_flatMap]
  refine lists_map_iff (f := Scope.renameIn old new) (fun _ => rfl) fun c _ => ?_
  rw [List.forall_mem_cons, List.forall_mem_singleton, ← getScopes_renameIn_iff hold hnew c,
    ← getDefaultScopes_renameIn_iff hold hnew c]
  simp

/-- **The lists after a renaming** are the previous ones with the name changed, if and only if
no text contains the old name other than as an element. -/
theorem lists_renamed_iff (data : AppState) (op : Renaming)
    (hu : UniqueKey User.id (w.db .users)) (hc : UniqueKey Client.id (w.db .clients))
    (hname : op.kind.Names w op.id old) (hold : reGroups old = true) (hnew : reGroups op.newName = true)
    (h : Exec sem (op.prog data) w (.ok ()) w') :
    op.kind.lists w' = (op.kind.lists w).map (onLists (renamed old op.newName)) ↔
      ∀ text ∈ op.kind.texts w, NamedCleanly old op.newName text := by
  cases op with
  | role id newName =>
      obtain ⟨_, w₁, hupdate, -, rfl⟩ := exec_bind_ok.mp h
      obtain ⟨role, hhas, hedit⟩ := Role.update_ok hu hupdate
      obtain ⟨role', hhas', rfl⟩ := hname
      obtain rfl : role = role' := Option.some.inj (hhas.symm.trans hhas')
      have hrows := hedit.rows (by simp [DbWrite.table])
      simp only [renameIn_roles_eq hold] at hrows
      show (w'.db .users).map _ = _ ↔ _
      rw [hrows]
      exact roles_renamed_iff hold hnew _
  | group id newName =>
      obtain ⟨_, w₁, hupdate, -, rfl⟩ := exec_bind_ok.mp h
      obtain ⟨group, hhas, hedit⟩ := Group.update_ok hu hupdate
      obtain ⟨group', hhas', rfl⟩ := hname
      obtain rfl : group = group' := Option.some.inj (hhas.symm.trans hhas')
      have hrows := hedit.rows (by simp [DbWrite.table])
      simp only [renameIn_groups_eq hold] at hrows
      show (w'.db .users).map _ = _ ↔ _
      rw [hrows]
      exact groups_renamed_iff hold hnew _
  | scope id req =>
      obtain ⟨_, w₁, hupdate, -, rfl⟩ := exec_bind_ok.mp h
      obtain ⟨scope, hhas, -, hedit⟩ := Scope.update_ok hc hupdate
      obtain ⟨scope', hhas', rfl⟩ := hname
      obtain rfl : scope = scope' := Option.some.inj (hhas.symm.trans hhas')
      have hrows := hedit.rows (by simp [DbWrite.table])
      simp only [renameIn_scopes_eq hold] at hrows
      show (w'.db .clients).map _ = _ ↔ _
      rw [hrows]
      exact scopes_renamed_iff hold hnew _

end Rows

/-- Alice has the role that is renamed, and another one. -/
theorem lists_renamed_iff_alice :
    ∃ w', Exec sem ((Renaming.role "role" "owner").prog sampleState) (roleWorld "admin" "admin,editor")
        (.ok ()) w' ∧
      NameKind.role.lists w' = [("alice", [["owner", "editor"]])] := by
  obtain ⟨r, w', hx, hr⟩ := Pool.exists_exec_of_choices Op.run
    ((Renaming.role "role" "owner").prog sampleState)
    [.ok, .ok, .ok, .ok, .ok, .ok, .ok, .ok, .ok, .miss, .ok, .ok, .ok]
    (roleWorld "admin" "admin,editor") (fun r _ => r.isOk) (by decide +kernel)
  rcases r with e | ⟨⟩
  · cases hr
  refine ⟨w', hx, ?_⟩
  have hnames : NameKind.role.Names (roleWorld "admin" "admin,editor") "role" "admin" :=
    ⟨_, rfl, rfl⟩
  have hlists := (lists_renamed_iff sampleState (.role "role" "owner")
    (uniqueUsers_roleWorld _ _) (uniqueClients_roleWorld _ _) hnames (by decide) (by decide)
    hx).mpr (by
      show ∀ text ∈ ["admin,editor"], _
      rw [List.forall_mem_singleton]
      exact .inr (.inr (by decide)))
  exact hlists.trans (by decide)

/-- Renaming `admin` renames `rauthy_admin` along. -/
theorem rename_in_other_name :
    ¬ ∀ (data : AppState) (op : Renaming) (old : String) (w w' : World),
      UniqueKey User.id (w.db .users) → UniqueKey Client.id (w.db .clients) →
      op.kind.Names w op.id old → reGroups old = true → reGroups op.newName = true →
      Exec sem (op.prog data) w (.ok ()) w' →
      op.kind.lists w' = (op.kind.lists w).map (onLists (renamed old op.newName)) := by
  intro hall
  obtain ⟨r, w', hx, hr⟩ := Pool.exists_exec_of_choices Op.run
    ((Renaming.role "role" "owner").prog sampleState)
    [.ok, .ok, .ok, .ok, .ok, .ok, .ok, .ok, .ok, .miss, .ok, .ok, .ok]
    (roleWorld "admin" "rauthy_admin")
    (fun r w' => r.isOk && (w'.db .users).map User.roles == ["rauthy_owner"])
    (by decide +kernel)
  rcases r with e | ⟨⟩
  · cases hr
  have hlists := hall sampleState (.role "role" "owner") "admin" _ w' (uniqueUsers_roleWorld _ _)
    (uniqueClients_roleWorld _ _) ⟨_, rfl, rfl⟩ (by decide) (by decide) hx
  have hroles : (w'.db .users).map User.roles = ["rauthy_owner"] := beq_iff_eq.mp hr
  obtain ⟨u, hu, hrole⟩ := List.map_eq_singleton_iff.mp hroles
  have hread : NameKind.role.lists w' = [(u.id, [u.getRoles])] := by
    show (w'.db .users).map _ = _
    rw [hu]
    rfl
  rw [show (Renaming.role "role" "owner").kind = .role from rfl, hread] at hlists
  have hget : u.getRoles = ["rauthy_owner"] := by
    unfold User.getRoles
    rw [hrole]
    decide
  rw [hget] at hlists
  exact absurd hlists (by
    show ¬ [(u.id, [["rauthy_owner"]])] = [("alice", [["rauthy_admin"]])]
    simp)

end Rauthy
