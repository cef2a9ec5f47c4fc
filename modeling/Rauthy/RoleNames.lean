/-
Rauthy/RoleNames.lean

The names of the roles over all requests for them.  A role is created if the cached list does
not have its name, `rauthy_admin` is not deleted, but an update gives every role every name.

Main result: `role_names_kept`, which updates and which cached lists keep the names distinct and
the role `rauthy_admin` in the table.
-/
import Rauthy.Transactions

namespace Rauthy

open Prog

/-- The rows of the first migrations. -/
def initialRoles : List Role :=
  [⟨"3kv6Yokr3qsgepwQWyXJWLzs", "admin"⟩, ⟨"9Pr9NVgu4HGLH7SnMB4a73i8", "user"⟩,
    ⟨"JJsvMJH7ZJXC3xRbocw8E7Um", "rauthy_admin"⟩]

/-- A request for the roles. -/
inductive RoleRequest where
  | create (name : String)
  | update (id newName : String)
  | delete (id : String)

namespace RoleRequest

def prog : RoleRequest → M ErrorResponse Unit
  | create name => do let _ ← Role.create name
  | update id newName => do let _ ← Role.update id newName
  | delete id => Role.delete id

/-- A cached list has the name of a new role if the table has it, a new name is not that of
another role, and `rauthy_admin` keeps its name. -/
def Clean (w : World) : RoleRequest → Prop
  | create name => ∀ rows, w.cache .c12hr roleListing.key = some (.roles rows) →
      (∃ r ∈ w.db .roles, r.name = name) → ∃ r ∈ rows, r.name = name
  | update id newName => ∀ role, roleListing.Has w id role →
      (role.name = roleAdmin → newName = roleAdmin) ∧
        ∀ r ∈ w.db .roles, r.id ≠ id → r.name ≠ newName
  | delete _ => True

/-- How a request changes the table, if it does. -/
def Changes (w : World) (rows : List Role) : RoleRequest → Prop
  | create name => ∃ id read, rows = w.db .roles ++ [({ id, name } : Role)] ∧
      (∀ r ∈ w.db .roles, r.id ≠ id) ∧ (∀ r ∈ read, r.name ≠ name) ∧
      (w.cache .c12hr roleListing.key = some (.roles read) ∨ read = w.db .roles)
  | update id newName => ∃ role, roleListing.Has w id role ∧
      rows = (w.db .roles).map fun r => if r.id = id then { r with name := newName } else r
  | delete id => ∃ role, roleListing.Has w id role ∧ role.name ≠ roleAdmin ∧
      rows = (w.db .roles).filter fun r => r.id ≠ id

end RoleRequest

/-! ### What a request does, whatever it answers -/

section Outcomes

variable {w : World}

theorem outcomes_findRoles : Outcomes sem Role.findAll w fun r w' => w'.db = w.db ∧
    ∀ rows, r = .ok rows →
      w.cache .c12hr roleListing.key = some (.roles rows) ∨ rows = w.db .roles := by
  intro r w' hx
  refine ⟨db_of_touches (roleListing.findAll_touches fun _ => rfl) hx, ?_⟩
  rintro rows rfl
  rcases exec_cached hx with ⟨v, hv, hrows, -⟩ | ⟨w₁, w₂, hw, hload, -⟩
  · rw [CacheVal.roles?_eq_some] at hrows
    rw [hrows] at hv
    exact .inl hv
  · obtain ⟨rfl, rfl⟩ := exec_select.mp hload
    right
    rw [List.filter_true]
    rcases hw with rfl | rfl
    · rfl
    · rfl

/-- A last statement about the roles is applied to the table as it was. -/
theorem rows_of_last {db db' : Db} {f : List Role → List Role} {last : DbWrite}
    (hlast : ∀ db, last.apply db = some (Function.update db .roles (f (db .roles))))
    (h : last.apply db = some db') : db' .roles = f (db .roles) := by
  rw [hlast] at h
  cases h
  exact Function.update_self ..

theorem RoleRequest.outcomes (q : RoleRequest) :
    Outcomes sem q.prog w fun _ w' => w'.db .roles = w.db .roles ∨ q.Changes w (w'.db .roles) := by
  -- storing the list leaves the table as it is
  have hstore : ∀ {α : Type} {p : M ErrorResponse α} {w₁ : World},
      Touches [] [(.c12hr, .roles)] p →
      w₁.db .roles = w.db .roles ∨ q.Changes w (w₁.db .roles) →
      Outcomes sem p w₁ fun _ w' => w'.db .roles = w.db .roles ∨ q.Changes w (w'.db .roles) := by
    intro α p w₁ hp hw₁ r w' hx
    rw [(hp.frame hx).db .roles (by simp)]
    exact hw₁
  have hsave : ∀ {α : Type} {us : List User} {last : DbWrite} {f : List Role → List Role}
      {p : M ErrorResponse α}, Touches [] [(.c12hr, .roles)] p →
      (∀ db, last.apply db = some (Function.update db .roles (f (db .roles)))) →
      q.Changes w (f (w.db .roles)) →
      Outcomes sem (User.saveEdited us last >>= fun _ => p) w fun _ w' =>
        w'.db .roles = w.db .roles ∨ q.Changes w (w'.db .roles) := by
    intro α us last f p hp hlast hchanges
    refine outcomes_bind (outcomes_mono (User.outcomes_saveEdited (t := .roles) (by simp))
      fun r w₁ hw₁ => ?_)
    have h₁ : w₁.db .roles = w.db .roles ∨ q.Changes w (w₁.db .roles) := by
      refine hw₁.imp_right ?_
      rintro ⟨db₁, hdb₁, happly⟩
      rw [rows_of_last hlast happly, hdb₁]
      exact hchanges
    rcases r with e | u
    · exact h₁
    · exact hstore hp h₁
  cases q with
  | create name =>
      refine outcomes_unit (outcomes_bind (outcomes_mono outcomes_findRoles fun r w₁ hw₁ => ?_))
      obtain ⟨hdb, hread⟩ := hw₁
      have h₁ : w₁.db .roles = w.db .roles := by rw [hdb]
      rcases r with e | read
      · exact .inl h₁
      refine outcomes_bind (outcomes_throwIf (fun hnew => ?_) fun _ => .inl h₁)
      refine outcomes_bind fun r w₂ hx => ?_
      have hid : Touches [] [] (newStoreId : M ErrorResponse String) := touches_getRand 24
      have h₂ : w₂.db .roles = w.db .roles := ((hid.frame hx).db .roles (by simp)).trans h₁
      rcases r with e | id
      · exact .inl h₂
      have hinsert : Outcomes sem (roleListing.insert read ({ id, name } : Role)) w₂ fun _ w' =>
          w'.db .roles = w.db .roles ∨ (RoleRequest.create name).Changes w (w'.db .roles) := by
        refine outcomes_bind (outcomes_executeAll (fun _ => .inl h₂) fun r db happly => ?_)
        have hrow : (RoleRequest.create name).Changes w (db .roles) := by
          simp only [applyAll, DbWrite.apply, h₂] at happly
          split at happly
          · cases happly
          · next hfree =>
              cases happly
              refine ⟨id, read, Function.update_self .., fun r hr he => hfree ?_, ?_, hread _ rfl⟩
              · exact List.any_eq_true.mpr ⟨r, hr, by simp [conflicts, sameKey, he]⟩
              · intro r hr he
                exact hnew (List.any_eq_true.mpr ⟨r, hr, by simpa using he⟩)
        rcases r with e | u
        · exact .inr hrow
        · exact hstore (touches_cachePut (by simp [roleListing, CacheVal.slot]) _) (.inr hrow)
      refine outcomes_bind (outcomes_mono hinsert fun r w₃ hw₃ => ?_)
      rcases r with e | u
      · exact hw₃
      · exact outcomes_ret hw₃
  | update id newName =>
      refine outcomes_unit (outcomes_bind (outcomes_fetchOne (fun role hrole => ?_)
        fun _ => .inl rfl))
      refine outcomes_bind (outcomes_bind (outcomes_select (outcomes_ret ?_) fun _ => .inl rfl))
      have hlist : Touches [] [(.c12hr, .roles)] (do
          roleListing.storeUpdated role.id fun r => { r with name := newName }
          return ({ id, name := newName } : Role) : M ErrorResponse Role) :=
        touches_bind (roleListing.storeUpdated_touches (fun _ => rfl) _ _) fun _ => touches_ret _
      refine hsave hlist (f := fun rows => rows.map fun r =>
        if r.id = id then { r with name := newName } else r) (fun db => ?_) ⟨role, hrole, rfl⟩
      simp only [DbWrite.apply, beq_iff_eq]
  | delete id =>
      refine outcomes_bind (outcomes_fetchOne (fun role hrole => ?_) fun _ => .inl rfl)
      refine outcomes_bind (outcomes_throwIf (fun hadmin => ?_) fun _ => .inl rfl)
      refine outcomes_bind (outcomes_bind (outcomes_select (outcomes_ret ?_) fun _ => .inl rfl))
      refine hsave (roleListing.storeDeleted_touches (fun _ => rfl) _)
        (f := fun rows => rows.filter fun r => r.id ≠ id) (fun db => ?_) ⟨role, hrole, hadmin, rfl⟩
      simp only [DbWrite.apply, ne_eq, decide_not]
      rfl

end Outcomes

/-! ### Histories -/

/-- The roles after requests that all satisfy `C`, each with any answer, and after whatever else
does not write the table. -/
inductive RoleHistory (C : World → RoleRequest → Prop) : World → Prop
  | start {w : World} (hrows : w.db .roles = initialRoles) : RoleHistory C w
  | request {w w' : World} {q : RoleRequest} {r : Except (Fault ErrorResponse) Unit}
      (h : RoleHistory C w) (hC : C w q) (hx : Exec sem q.prog w r w') : RoleHistory C w'
  | other {w w' : World} (h : RoleHistory C w) (hrows : w'.db .roles = w.db .roles) :
      RoleHistory C w'

/-- The rows have distinct ids and distinct names, and one is `rauthy_admin`. -/
structure RolesOk (rows : List Role) : Prop where
  ids : UniqueKey Role.id rows
  names : UniqueKey Role.name rows
  admin : ∃ r ∈ rows, r.name = roleAdmin

section Steps

variable {w : World} {rows : List Role} {id newName : String}

theorem rolesOk_initial : RolesOk initialRoles where
  ids := by
    unfold UniqueKey
    decide
  names := by
    unfold UniqueKey
    decide
  admin := by decide

theorem RolesOk.create (h : RolesOk rows) {name : String} (hid : ∀ r ∈ rows, r.id ≠ id)
    (hname : ∀ r ∈ rows, r.name ≠ name) : RolesOk (rows ++ [({ id, name } : Role)]) where
  ids := h.ids.append hid
  names := h.names.append hname
  admin := by
    obtain ⟨r, hr, ha⟩ := h.admin
    exact ⟨r, List.mem_append_left _ hr, ha⟩

theorem RolesOk.delete (h : RolesOk rows) {role : Role} (hrole : role ∈ rows)
    (hne : role.name ≠ roleAdmin) : RolesOk (rows.filter fun r => r.id ≠ role.id) where
  ids := h.ids.sublist List.filter_sublist
  names := h.names.sublist List.filter_sublist
  admin := by
    obtain ⟨r, hr, ha⟩ := h.admin
    refine ⟨r, List.mem_filter.mpr ⟨hr, ?_⟩, ha⟩
    have hid : r.id ≠ role.id := fun he => hne (h.ids.inj hr hrole he ▸ ha)
    simpa using hid

theorem RolesOk.update (h : RolesOk rows) {role : Role} (hrole : role ∈ rows)
    (hadmin : role.name = roleAdmin → newName = roleAdmin)
    (hnew : ∀ r ∈ rows, r.id ≠ role.id → r.name ≠ newName) :
    RolesOk (rows.map fun r => if r.id = role.id then { r with name := newName } else r) where
  ids := h.ids.map fun r => by split <;> rfl
  names := by
    unfold UniqueKey
    rw [List.map_map]
    -- the new name is only that of the role itself
    refine List.Nodup.map_on (fun a ha b hb he => ?_) (List.Nodup.of_map _ h.ids)
    simp only [Function.comp_apply] at he
    split at he <;> split at he
    · next hia hib => exact h.ids.inj ha hb (hia.trans hib.symm)
    · next _ hib => exact absurd he.symm (hnew b hb hib)
    · next hia _ => exact absurd he (hnew a ha hia)
    · exact h.names.inj ha hb he
  admin := by
    obtain ⟨r, hr, ha⟩ := h.admin
    refine ⟨_, List.mem_map_of_mem hr, ?_⟩
    split
    · next hid =>
        have hsame : r = role := h.ids.inj hr hrole hid
        exact hadmin (hsame ▸ ha)
    · exact ha

theorem RolesOk.step (h : RolesOk (w.db .roles)) {q : RoleRequest} (hq : q.Clean w)
    (hrows : q.Changes w rows) : RolesOk rows := by
  cases q with
  | create name =>
      obtain ⟨id, read, rfl, hid, hread, hlist⟩ := hrows
      refine h.create hid fun r hr he => ?_
      rcases hlist with hcached | rfl
      · obtain ⟨r', hr', he'⟩ := hq read hcached ⟨r, hr, he⟩
        exact hread r' hr' he'
      · exact hread r hr he
  | update id newName =>
      obtain ⟨role, hhas, rfl⟩ := hrows
      obtain ⟨hmem, rfl⟩ : role ∈ w.db .roles ∧ role.id = id := hhas.mem
      obtain ⟨hadmin, hnew⟩ := hq role hhas
      exact h.update hmem hadmin hnew
  | delete id =>
      obtain ⟨role, hhas, hne, rfl⟩ := hrows
      obtain ⟨hmem, rfl⟩ : role ∈ w.db .roles ∧ role.id = id := hhas.mem
      exact h.delete hmem hne

end Steps

theorem RoleHistory.rolesOk {w : World} (h : RoleHistory (fun w q => q.Clean w) w) :
    RolesOk (w.db .roles) := by
  induction h with
  | start hrows =>
      rw [hrows]
      exact rolesOk_initial
  | @request w w' q r _ hC hx ih =>
      rcases q.outcomes _ _ hx with heq | hchanges
      · rw [heq]
        exact ih
      · exact ih.step hC hchanges
  | other _ hrows ih =>
      rw [hrows]
      exact ih

/-- **The names of the roles after every history of clean requests**: they are distinct, and one
of them is `rauthy_admin`. -/
theorem role_names_kept {w : World} (h : RoleHistory (fun w q => q.Clean w) w) :
    ((w.db .roles).map Role.name).Nodup ∧ ((w.db .roles).map Role.name).count roleAdmin = 1 := by
  have hok := h.rolesOk
  refine ⟨hok.names, List.count_eq_one_of_mem hok.names ?_⟩
  obtain ⟨r, hr, ha⟩ := hok.admin
  exact ha ▸ List.mem_map_of_mem hr

/-- The state of the first start. -/
def initialWorld : World where
  clock := 0
  issued := []
  db
    | .roles => initialRoles
    | _ => []
  cache _ _ := none

theorem start_initialWorld {C : World → RoleRequest → Prop} : RoleHistory C initialWorld :=
  .start rfl

theorem role_names_kept_created : ∃ w,
    RoleHistory (fun w q => q.Clean w) w ∧ (⟨"abcdefghijklmnopqrstuvwx", "staff"⟩ : Role) ∈ w.db .roles ∧
      ((w.db .roles).map Role.name).Nodup ∧ ((w.db .roles).map Role.name).count roleAdmin = 1 := by
  obtain ⟨r, w, hx, hr⟩ := Pool.exists_exec_of_choices Op.run (RoleRequest.create "staff").prog
    [.ok, .ok, .ok, .rand "abcdefghijklmnopqrstuvwx", .ok, .ok] initialWorld
    (fun _ w => decide ((⟨"abcdefghijklmnopqrstuvwx", "staff"⟩ : Role) ∈ w.db .roles))
    (by decide +kernel)
  have h : RoleHistory (fun w q => q.Clean w) w := by
    refine .request (q := .create "staff") start_initialWorld (fun rows hrows => ?_) hx
    cases hrows
  exact ⟨w, h, of_decide_eq_true hr, role_names_kept h⟩

/-- An update takes the name `rauthy_admin` from its role, and gives it that of another one. -/
theorem admin_role_renamed : ∃ w, RoleHistory (fun _ _ => True) w ∧
    (w.db .roles).map Role.name = ["admin", "user", "user"] := by
  obtain ⟨r, w, hx, hr⟩ := Pool.exists_exec_of_choices Op.run
    (RoleRequest.update "JJsvMJH7ZJXC3xRbocw8E7Um" "user").prog
    [.ok, .ok, .ok, .ok, .ok, .ok, .ok, .ok, .ok] initialWorld
    (fun r w => r.isOk &&
      decide ((w.db .roles).map Role.name = ["admin", "user", "user"]))
    (by decide +kernel)
  rw [Bool.and_eq_true] at hr
  exact ⟨w, .request start_initialWorld trivial hx, of_decide_eq_true hr.2⟩

end Rauthy
