/-
Rauthy/Transactions.lean

What the edits of `Rauthy.Roles` leave in the tables if they succeed.  An edit reads all users
(or clients), changes some of them, and saves these one by one in a transaction with a
last statement about its own table: afterwards exactly the rows that it has chosen are
changed (`User.saveEdited_rows`, `Client.saved_rows`), each in its place.

What the saves do besides, to the caches and to the sessions of disabled users, is bounded
by a frame.
-/
import Mathlib.Data.List.Sort
import Rauthy.Lib.Rows
import Rauthy.Roles

namespace Rauthy

open Prog

/-! ### Statements that save rows -/

section Statements

variable {t : Table} {κ : Type} [DecidableEq κ] {key : Row t → κ} {upd : Row t → Row t → Row t}
  {stmt : Row t → DbWrite} {cs : List (Row t)} {rest : List DbWrite} {db db' : Db}

theorem applyAll_append (ss ss' : List DbWrite) (db : Db) :
    applyAll (ss ++ ss') db = (applyAll ss db).bind (applyAll ss') := by
  induction ss generalizing db with
  | nil => rfl
  | cons s ss ih =>
      show (s.apply db).bind (applyAll (ss ++ ss')) = ((s.apply db).bind (applyAll ss)).bind _
      rw [Option.bind_assoc]
      exact congrArg _ (funext ih)

/-- The statement sets the columns `upd` of the row with the same key. -/
def Sets (key : Row t → κ) (upd : Row t → Row t → Row t) (stmt : Row t → DbWrite) : Prop :=
  ∀ c db, (stmt c).apply db = some (Function.update db t (updateRow key upd (db t) c))

theorem Sets.applyAll (hs : Sets key upd stmt) (cs : List (Row t)) (db : Db) :
    ∃ db₁, applyAll (cs.map stmt) db = some db₁ ∧ db₁ t = cs.foldl (updateRow key upd) (db t) ∧
      ∀ t', t' ≠ t → db₁ t' = db t' := by
  induction cs generalizing db with
  | nil => exact ⟨db, rfl, rfl, fun _ _ => rfl⟩
  | cons c cs ih =>
      obtain ⟨db₁, h₁, ht, hother⟩ := ih (Function.update db t (updateRow key upd (db t) c))
      refine ⟨db₁, ?_, ?_, fun t' ht' => ?_⟩
      · rw [List.map_cons, Rauthy.applyAll, hs c db]
        exact h₁
      · rw [ht, Function.update_self]
        rfl
      · rw [hother t' ht', Function.update_of_ne ht']

/-- **The rows after a transaction of saves**: those chosen by `p` are edited by `f`. -/
theorem Sets.rows (hs : Sets key upd stmt) {l : List (Row t)} {f : Row t → Row t} {p : Row t → Bool}
    (hu : UniqueKey key (db t)) (hl : UniqueKey key l) (hp : ∀ r, r ∈ l ↔ r ∈ db t ∧ p r = true)
    (hf : ∀ c, key (f c) = key c ∧ upd (f c) c = f c)
    (h : Rauthy.applyAll ((l.map f).map stmt ++ rest) db = some db') :
    ∃ db₁, db₁ t = (db t).map (fun r => if p r = true then f r else r) ∧
      (∀ t', t' ≠ t → db₁ t' = db t') ∧ Rauthy.applyAll rest db₁ = some db' := by
  obtain ⟨db₁, h₁, ht, hother⟩ := hs.applyAll (l.map f) db
  rw [applyAll_append, h₁] at h
  refine ⟨db₁, ?_, hother, h⟩
  rw [ht]
  have hrewrites := rewrites_updates hu hl (fun c hc => ((hp c).mp hc).1) fun c _ => hf c
  refine hrewrites.eq_map fun r hr => ?_
  rw [hp r]
  exact and_iff_right hr

end Statements

/-! ### Users -/

section Users

variable {w w' : World} {us : List User} {ss : List DbWrite} {last : DbWrite}

theorem User.sets_saveStmt : Sets (t := .users) User.id
    (fun u r => { u with id := r.id, createdAt := r.createdAt }) User.saveStmt := by
  intro u db
  have hrows : ∀ r : User, (r.id == u.id) = true ↔ r.id = u.id := fun r => beq_iff_eq
  simp only [User.saveStmt, DbWrite.apply, updateRow, hrows]

theorem emails_of_updates {rows : List User}
    (hmail : ∀ u ∈ us, ∀ r ∈ rows, r.id = u.id → u.email = r.email) :
    ((us.foldl (updateRow User.id fun u r => { u with id := r.id, createdAt := r.createdAt })
      rows).map User.email) = rows.map User.email := by
  induction us generalizing rows with
  | nil => rfl
  | cons u us ih =>
      obtain ⟨hu, hus⟩ := List.forall_mem_cons.mp hmail
      have hkept : ∀ r ∈ rows,
          (if r.id = u.id then { u with id := r.id, createdAt := r.createdAt } else r).id = r.id ∧
          (if r.id = u.id then { u with id := r.id, createdAt := r.createdAt } else r).email =
            r.email := by
        intro r hr
        split
        · next hid => exact ⟨rfl, hu r hr hid⟩
        · exact ⟨rfl, rfl⟩
      rw [List.foldl_cons, ih]
      · unfold updateRow
        rw [List.map_map]
        exact List.map_congr_left fun r hr => (hkept r hr).2
      · intro v hv r' hr' hid
        obtain ⟨r, hr, rfl⟩ := List.mem_map.mp hr'
        rw [(hkept r hr).1] at hid
        rw [(hkept r hr).2]
        exact hus v hv r hr hid

theorem emails_of_saves {db db' : Db}
    (hmail : ∀ u ∈ us, ∀ r ∈ db .users, r.id = u.id → u.email = r.email)
    (hlast : last.table ≠ .users) (h : applyAll (us.map User.saveStmt ++ [last]) db = some db') :
    (db' .users).map User.email = (db .users).map User.email := by
  obtain ⟨db₁, h₁, husers, -⟩ := User.sets_saveStmt.applyAll us db
  rw [applyAll_append, h₁] at h
  have hlastUsers : db' .users = db₁ .users := applyAll_frame h (by simpa using hlast)
  rw [hlastUsers, husers]
  exact emails_of_updates hmail

/-- What the saves of users do before the commit. -/
abbrev SavesFrame (w w' : World) : Prop :=
  Frame [.sessions, .refreshTokens] [(.sessions, .session), (.users, .user)] w w'

theorem User.saveAll_ok (h : Exec sem (User.saveAll us) w (.ok ss) w') :
    ss = us.map User.saveStmt ∧ SavesFrame w w' := by
  induction us generalizing w ss with
  | nil =>
      obtain ⟨hss, rfl⟩ := h
      cases hss
      exact ⟨rfl, .refl ..⟩
  | cons u us ih =>
      obtain ⟨s, w₁, hsave, h⟩ := exec_bind_ok.mp h
      obtain ⟨ss', w₂, hrest, hret, rfl⟩ := exec_bind_ok.mp h
      cases hret
      obtain ⟨_, w₃, hbegin, hsave⟩ := exec_bind_ok.mp hsave
      obtain ⟨_, w₄, hcached, hret, rfl⟩ := exec_bind_ok.mp hsave
      cases hret
      obtain ⟨db, ⟨hdb, -⟩, rfl⟩ := exec_execute.mp hbegin
      cases hdb
      have hframe : SavesFrame w w₁ := (u.saveCached_touches none).frame hcached
      obtain ⟨rfl, hframe'⟩ := ih hrest
      exact ⟨rfl, hframe.trans hframe'⟩

theorem User.saveEdited_ok (h : Exec sem (User.saveEdited us last) w (.ok ()) w') :
    ∃ w₁ db, SavesFrame w w₁ ∧ applyAll (us.map User.saveStmt ++ [last]) w₁.db = some db ∧
      w' = { w₁ with db } := by
  obtain ⟨_, w₁, hlist, h⟩ := exec_bind_ok.mp h
  obtain ⟨_, w₂, hbegin, h⟩ := exec_bind_ok.mp h
  obtain ⟨ss, w₃, hsaves, h⟩ := exec_bind_ok.mp h
  obtain ⟨_, w₄, hsecond, hcommit⟩ := exec_bind_ok.mp h
  obtain ⟨db, ⟨hdb, -⟩, rfl⟩ := exec_execute.mp hbegin
  cases hdb
  obtain ⟨db, ⟨hdb, -⟩, rfl⟩ := exec_execute.mp hsecond
  cases hdb
  obtain ⟨rfl, hframe⟩ := User.saveAll_ok hsaves
  have hdel : SavesFrame w w₁ := Touches.frame (touches_runIf (touches_cacheDel _ _)) hlist
  obtain ⟨db, ⟨hdb, -⟩, rfl⟩ := exec_execute.mp hcommit
  exact ⟨w₃, db, hdel.trans hframe, hdb, rfl⟩

theorem User.findAll_ok {all : List User} (h : Exec sem User.findAll w (.ok all) w') :
    all = (w.db .users).insertionSort (fun u v => u.createdAt ≤ v.createdAt) ∧ w' = w := by
  obtain ⟨rows, w₁, hrows, hret, rfl⟩ := exec_bind_ok.mp h
  obtain ⟨rfl, rfl⟩ := exec_select.mp hrows
  cases hret
  rw [List.filter_true]
  exact ⟨rfl, rfl⟩

/-- **The users that an edit chooses are edited**, and the last statement is applied. -/
theorem User.saveEdited_rows {all : List User} {p : User → Bool} {f : User → User}
    (hu : UniqueKey User.id (w.db .users)) (hf : ∀ u, (f u).id = u.id ∧ (f u).createdAt = u.createdAt)
    (hall : all = (w.db .users).insertionSort fun u v => u.createdAt ≤ v.createdAt)
    (h : Exec sem (User.saveEdited ((all.filter p).map f) last) w (.ok ()) w') :
    ∃ db₁, db₁ .users = (w.db .users).map (fun u => if p u = true then f u else u) ∧
      (∀ t, t ∉ [Table.users, .sessions, .refreshTokens] → db₁ t = w.db t) ∧
      last.apply db₁ = some w'.db := by
  obtain ⟨w₁, db, hframe, hdb, rfl⟩ := User.saveEdited_ok h
  have hrows : w₁.db .users = w.db .users := hframe.db .users (by simp)
  have hperm : all.Perm (w.db .users) := hall ▸ List.perm_insertionSort _ _
  have hl : UniqueKey User.id (all.filter p) :=
    ((hperm.filter p).map User.id).nodup_iff.mpr (hu.sublist List.filter_sublist)
  have hp : ∀ r, r ∈ all.filter p ↔ r ∈ w₁.db .users ∧ p r = true := by
    intro r
    rw [List.mem_filter, hperm.mem_iff, hrows]
  have hf' : ∀ c : User, (f c).id = c.id ∧ { f c with id := c.id, createdAt := c.createdAt } = f c := by
    intro c
    obtain ⟨hid, hcreated⟩ := hf c
    refine ⟨hid, ?_⟩
    rw [← hid, ← hcreated]
  obtain ⟨db₁, husers, hother, hlast⟩ := User.sets_saveStmt.rows (hrows ▸ hu) hl hp hf' hdb
  refine ⟨db₁, by rw [husers, hrows], fun t ht => ?_, ?_⟩
  · rw [hother t fun he => ht (by simp [he])]
    exact hframe.db t fun he => ht (List.mem_cons_of_mem _ he)
  · obtain ⟨db₂, h₂, hret⟩ := Option.bind_eq_some_iff.mp hlast
    cases hret
    exact h₂

end Users

/-! ### Whatever is answered -/

section Outcomes

variable {w : World}
  {t : Table}

theorem outcomes_frame {α : Type} {ts : List Table} {cs : List (CacheName × Slot)}
    {p : M ErrorResponse α} (hp : Touches ts cs p) :
    Outcomes sem p w fun _ w' => Frame ts cs w w' := fun _ _ hx => hp.frame hx

/-- A row is inserted next to rows that it does not conflict with. -/
theorem applyAll_insert {r : Row t} {db db' : Db} (h : applyAll [.insert t r] db = some db') :
    (∀ r' ∈ db t, conflicts t r r' = false) ∧ db' = Function.update db t (db t ++ [r]) := by
  obtain ⟨db₁, hins, hret⟩ := Option.bind_eq_some_iff.mp h
  cases hret
  simp only [DbWrite.apply] at hins
  split at hins
  · cases hins
  next hfree =>
  cases hins
  refine ⟨fun r' hr' => ?_, rfl⟩
  simpa using fun hc => hfree (List.any_eq_true.mpr ⟨r', hr', hc⟩)

/-- A last statement about another table is applied to the table as it was. -/
theorem applyAll_last {ss : List DbWrite} {last : DbWrite} {db db' : Db}
    (hss : ∀ s ∈ ss, s.table ≠ t) (h : applyAll (ss ++ [last]) db = some db') :
    ∃ db₁, db₁ t = db t ∧ last.apply db₁ = some db' := by
  rw [applyAll_append] at h
  obtain ⟨db₁, h₁, hlast⟩ := Option.bind_eq_some_iff.mp h
  obtain ⟨db₂, h₂, hret⟩ := Option.bind_eq_some_iff.mp hlast
  cases hret
  exact ⟨db₁, applyAll_frame h₁ hss, h₂⟩

theorem User.saveAll_touches (us : List User) :
    Touches [.sessions, .refreshTokens] [(.sessions, .session), (.users, .user)]
      (User.saveAll us) := by
  induction us with
  | nil => exact touches_ret _
  | cons u us ih =>
      have hsave : Touches [.sessions, .refreshTokens] [(.sessions, .session), (.users, .user)]
          u.saveTxn :=
        touches_bind (touches_execute (by simp)) fun _ =>
          touches_bind (u.saveCached_touches none) fun _ => touches_ret _
      exact touches_bind hsave fun _ => touches_bind ih fun _ => touches_ret _

/-- Edited users are saved, and a table besides those that the saves write is as it was or as the
last statement leaves it. -/
theorem User.outcomes_saveEdited {us : List User} {last : DbWrite}
    (ht : t ∉ [Table.users, .sessions, .refreshTokens]) :
    Outcomes sem (User.saveEdited us last) w fun _ w' => w'.db t = w.db t ∨
      ∃ db₁, db₁ t = w.db t ∧ last.apply db₁ = some w'.db := by
  have htable : t ≠ .users := fun he => ht (by simp [he])
  have hsaved : t ∉ [Table.sessions, .refreshTokens] := fun he => ht (List.mem_cons_of_mem _ he)
  have hbegin : ∀ w, Outcomes sem (execute []) w fun _ w' => w' = w := by
    intro w
    refine outcomes_executeAll (fun _ => rfl) fun r db hdb => ?_
    cases hdb
    rfl
  have hlist : Touches [] [] (runIf (us ≠ []) (cacheDel .c12hr "users_") : M ErrorResponse Unit) :=
    touches_runIf (touches_cacheDel _ _)
  refine outcomes_bind (outcomes_mono (outcomes_frame hlist) fun r w₁ hw₁ => ?_)
  have h₁ : w₁.db t = w.db t := hw₁.db t (by simp)
  rcases r with e | u
  · exact .inl h₁
  refine outcomes_bind (outcomes_mono (hbegin w₁) fun r w₂ hw₂ => ?_)
  subst hw₂
  rcases r with e | u
  · exact .inl h₁
  refine outcomes_bind fun r w₃ hx => ?_
  rcases r with e | ss
  · left
    rw [← h₁]
    exact ((User.saveAll_touches us).frame hx).db t hsaved
  obtain ⟨rfl, hframe⟩ := User.saveAll_ok hx
  have h₃ : w₃.db t = w.db t := (hframe.db t hsaved).trans h₁
  refine outcomes_bind (outcomes_mono (hbegin w₃) fun r w₄ hw₄ => ?_)
  subst hw₄
  rcases r with e | u
  · exact .inl h₃
  have hothers : ∀ s ∈ us.map User.saveStmt, s.table ≠ t := by
    intro s hs
    obtain ⟨u, -, rfl⟩ := List.mem_map.mp hs
    exact htable.symm
  refine outcomes_executeAll (fun _ => .inl h₃) fun r db hdb => .inr ?_
  obtain ⟨db₁, hdb₁, hlast⟩ := applyAll_last hothers hdb
  exact ⟨db₁, hdb₁.trans h₃, hlast⟩

end Outcomes

/-! ### Clients -/

section Clients

variable {w w' : World} {cs : List Client} {ss : List DbWrite}

theorem Client.sets_saveStmt :
    Sets (t := .clients) Client.id (fun c r => { c with id := r.id }) Client.saveStmt := by
  intro c db
  have hrows : ∀ r : Client, (r.id == c.id) = true ↔ r.id = c.id := fun r => beq_iff_eq
  simp only [Client.saveStmt, DbWrite.apply, updateRow, hrows]

/-- What the saves of clients do before the commit. -/
abbrev ClientsFrame (w w' : World) : Prop := Frame [] [(.c12hr, .client), (.c12hr, .clients)] w w'

theorem Client.saveTxn_touches (c : Client) :
    Touches [] [(.c12hr, .client), (.c12hr, .clients)] c.saveTxn := by
  refine touches_bind (touches_execute (by simp)) fun _ => ?_
  refine touches_bind (touches_cachePut (by simp [CacheVal.slot]) _) fun _ => ?_
  refine touches_bind (touches_select _ _) fun _ => ?_
  exact touches_bind (touches_cachePut (by simp [CacheVal.slot]) _) fun _ => touches_ret _

theorem Client.saveTxn_ok {c : Client} {s : DbWrite} (h : Exec sem c.saveTxn w (.ok s) w') :
    s = c.saveStmt ∧ ClientsFrame w w' := by
  have hframe := (Client.saveTxn_touches c).frame h
  obtain ⟨_, w₁, -, h⟩ := exec_bind_ok.mp h
  obtain ⟨_, w₂, -, h⟩ := exec_bind_ok.mp h
  obtain ⟨_, w₃, -, h⟩ := exec_bind_ok.mp h
  obtain ⟨_, w₄, -, hret, rfl⟩ := exec_bind_ok.mp h
  cases hret
  exact ⟨rfl, hframe⟩

theorem Client.saveAll_ok (h : Exec sem (Client.saveAll cs) w (.ok ss) w') :
    ss = cs.map Client.saveStmt ∧ ClientsFrame w w' := by
  induction cs generalizing w ss with
  | nil =>
      obtain ⟨hss, rfl⟩ := h
      cases hss
      exact ⟨rfl, .refl ..⟩
  | cons c cs ih =>
      obtain ⟨s, w₁, hsave, h⟩ := exec_bind_ok.mp h
      obtain ⟨ss', w₂, hrest, hret, rfl⟩ := exec_bind_ok.mp h
      cases hret
      obtain ⟨rfl, hframe⟩ := Client.saveTxn_ok hsave
      obtain ⟨rfl, hframe'⟩ := ih hrest
      exact ⟨rfl, hframe.trans hframe'⟩

/-- **The clients that an edit chooses are edited** by the statements of a transaction. -/
theorem Client.saved_rows {db db' : Db} {rest : List DbWrite} {p : Client → Bool}
    {f : Client → Client} (hu : UniqueKey Client.id (db .clients)) (hf : ∀ c, (f c).id = c.id)
    (h : applyAll ((((db .clients).filter p).map f).map Client.saveStmt ++ rest) db = some db') :
    ∃ db₁, db₁ .clients = (db .clients).map (fun c => if p c = true then f c else c) ∧
      (∀ t, t ≠ .clients → db₁ t = db t) ∧ applyAll rest db₁ = some db' := by
  have hl : UniqueKey Client.id ((db .clients).filter p) := hu.sublist List.filter_sublist
  refine Client.sets_saveStmt.rows hu hl (fun r => List.mem_filter) (fun c => ⟨hf c, ?_⟩) h
  show { f c with id := c.id } = f c
  rw [← hf c]

end Clients

/-! ### The operations -/

section Operations

variable {w w' : World} {id newName : String}
  {t : Table} {cs : List (CacheName × Slot)} {s : Slot} {last : DbWrite} {u : Unit}
  {L : Listing t}

/-- The row with the id that was asked for. -/
def Listing.Has {t : Table} (L : Listing t) (w : World) (id : String) (row : Row t) : Prop :=
  ((w.db t).filter fun r => L.id r == id).head? = some row

theorem Listing.Has.mem {row : Row t} (h : L.Has w id row) :
    row ∈ w.db t ∧ L.id row = id := by
  obtain ⟨hmem, hid⟩ := List.mem_filter.mp (List.mem_of_head? h)
  exact ⟨hmem, beq_iff_eq.mp hid⟩

theorem db_of_touches {α : Type} {p : M ErrorResponse α} (hp : Touches [] cs p)
    {r : Except (Fault ErrorResponse) α} (h : Exec sem p w r w') :
    w'.db = w.db := funext fun t => (hp.frame h).db t (by simp)

theorem db_of_drop {c : Prop} [Decidable c] {k : String} {r : Except (Fault ErrorResponse) Unit}
    (h : Exec sem (runIf c (cacheDel .c12hr k)) w r w') : w'.db = w.db := by
  have hdel : Touches [] [] (runIf c (cacheDel .c12hr k) : M ErrorResponse Unit) :=
    touches_runIf (touches_cacheDel _ _)
  exact db_of_touches hdel h

theorem Listing.findAll_touches (L : Listing t) (hs : ∀ rows, (L.wrap rows).slot = s) :
    Touches [] [(.c12hr, s)] L.findAll :=
  touches_cached (touches_select _ _) fun rows => by simp [hs rows]

/-- The list in the cache, if there is one, is the table. -/
def Listing.Fresh {t : Table} (L : Listing t) (w : World) : Prop :=
  ∀ v rows, w.cache .c12hr L.key = some v → L.unwrap v = some rows → rows = w.db t

theorem Listing.Fresh.frame (hL : L.Fresh w) (hf : Frame [] cs w w') (hcs : ∀ s, (.c12hr, s) ∉ cs) :
    L.Fresh w' := by
  intro v rows hv hrows
  rw [hf.db t (by simp)]
  rcases hf.cache _ _ v hv with h | h
  · exact hL v rows h hrows
  · exact absurd h (hcs _)

theorem Listing.Fresh.findAll {rows : List (Row t)} (hL : L.Fresh w)
    (h : Exec sem L.findAll w (.ok rows) w') : rows = w.db t := by
  rcases exec_cached h with ⟨v, hv, hrows, -⟩ | ⟨w₁, w₂, hw, hload, -⟩
  · exact hL v rows hv hrows
  · obtain ⟨rfl, rfl⟩ := exec_select.mp hload
    rw [List.filter_true]
    rcases hw with rfl | rfl
    · rfl
    · rfl

theorem Listing.storeUpdated_touches (L : Listing t) (hs : ∀ rows, (L.wrap rows).slot = s)
    (id : String) (f : Row t → Row t) :
    Touches [] [(.c12hr, s)] (L.storeUpdated id f) :=
  touches_bind (L.findAll_touches hs) fun _ => touches_cachePut (by simp [hs]) _

theorem Listing.storeDeleted_touches (L : Listing t) (hs : ∀ rows, (L.wrap rows).slot = s)
    (id : String) :
    Touches [] [(.c12hr, s)] (L.storeDeleted id) :=
  touches_bind (L.findAll_touches hs) fun _ => touches_cachePut (by simp [hs]) _

theorem WellKnown.rebuild_touches (data : AppState) :
    Touches [] [(.c12hr, .scopes), (.c12hr, .wellKnown)] (WellKnown.rebuild data) :=
  touches_bind ((scopeListing.findAll_touches fun _ => rfl).mono (by simp) (by simp)) fun _ =>
    touches_cachePut (by simp [CacheVal.slot]) _

/-- An edit of the users chosen by `p`, together with a statement about another table. -/
def EditsUsers (p : User → Bool) (f : User → User) (last : DbWrite) (w w' : World) : Prop :=
  ∃ db, db .users = (w.db .users).map (fun u => if p u = true then f u else u) ∧
    (∀ t, t ∉ [Table.users, .sessions, .refreshTokens] → db t = w.db t) ∧
    last.apply db = some w'.db

/-- The same for clients. -/
def EditsClients (p : Client → Bool) (f : Client → Client) (last : DbWrite) (w w' : World) : Prop :=
  ∃ db, db .clients = (w.db .clients).map (fun c => if p c = true then f c else c) ∧
    (∀ t, t ≠ .clients → db t = w.db t) ∧ last.apply db = some w'.db

theorem EditsUsers.rows {p : User → Bool} {f : User → User} (h : EditsUsers p f last w w')
    (hlast : last.table ≠ .users) :
    w'.db .users = (w.db .users).map fun u => if p u = true then f u else u := by
  obtain ⟨db, husers, -, hdb⟩ := h
  rw [DbWrite.apply_frame hdb hlast, husers]

theorem EditsClients.rows {p : Client → Bool} {f : Client → Client} (h : EditsClients p f last w w')
    (hlast : last.table ≠ .clients) :
    w'.db .clients = (w.db .clients).map fun c => if p c = true then f c else c := by
  obtain ⟨db, hclients, -, hdb⟩ := h
  rw [DbWrite.apply_frame hdb hlast, hclients]

/-- The common part of `update` and `delete` of roles and groups. -/
theorem editsUsers_of_exec {all : List User} {p : User → Bool} {f : User → User}
    {q : M ErrorResponse Unit} {w₁ w₂ : World} (hu : UniqueKey User.id (w.db .users))
    (hf : ∀ u, (f u).id = u.id ∧ (f u).createdAt = u.createdAt)
    (hall : Exec sem User.findAll w (.ok all) w₁)
    (hsave : Exec sem (User.saveEdited ((all.filter p).map f) last) w₁ (.ok u) w₂)
    (hq : Touches [] cs q) (hlist : Exec sem q w₂ (.ok u) w') : EditsUsers p f last w w' := by
  obtain ⟨rfl, rfl⟩ := User.findAll_ok hall
  have hrows := User.saveEdited_rows hu hf rfl hsave
  rwa [← db_of_touches hq hlist] at hrows

theorem Role.update_ok {r : Role} (hu : UniqueKey User.id (w.db .users))
    (h : Exec sem (Role.update id newName) w (.ok r) w') :
    ∃ role, roleListing.Has w id role ∧
      EditsUsers (fun u => Text.contains u.roles role.name) (Role.renameIn role.name newName)
        (.update .roles (fun r => r.id == id) fun r => { r with name := newName }) w w' := by
  obtain ⟨role, w₁, hrole, h₁⟩ := exec_bind_ok.mp h
  obtain ⟨all, w₂, hall, h₂⟩ := exec_bind_ok.mp h₁
  obtain ⟨_, w₃, hsave, h₃⟩ := exec_bind_ok.mp h₂
  obtain ⟨_, w₄, hlist, -, rfl⟩ := exec_bind_ok.mp h₃
  obtain ⟨hhas, rfl⟩ := exec_fetchOne.mp hrole
  exact ⟨role, hhas, editsUsers_of_exec hu (fun _ => ⟨rfl, rfl⟩) hall hsave
    (roleListing.storeUpdated_touches (fun _ => rfl) _ _) hlist⟩

theorem Role.delete_ok (hu : UniqueKey User.id (w.db .users))
    (h : Exec sem (Role.delete id) w (.ok u) w') :
    ∃ role, roleListing.Has w id role ∧ role.name ≠ roleAdmin ∧
      EditsUsers (fun u => Text.contains u.roles role.name) (·.deleteRole role.name)
        (.delete .roles fun r => r.id == id) w w' := by
  obtain ⟨role, w₁, hrole, h₁⟩ := exec_bind_ok.mp h
  obtain ⟨_, w₂, hname, h₂⟩ := exec_bind_ok.mp h₁
  obtain ⟨all, w₃, hall, h₃⟩ := exec_bind_ok.mp h₂
  obtain ⟨_, w₄, hsave, hlist⟩ := exec_bind_ok.mp h₃
  obtain ⟨hhas, rfl⟩ := exec_fetchOne.mp hrole
  obtain ⟨hne, rfl⟩ := exec_throwIf_ok.mp hname
  exact ⟨role, hhas, hne, editsUsers_of_exec hu (fun _ => ⟨rfl, rfl⟩) hall hsave
    (roleListing.storeDeleted_touches (fun _ => rfl) _) hlist⟩

theorem Group.update_ok {g : Group} (hu : UniqueKey User.id (w.db .users))
    (h : Exec sem (Group.update id newName) w (.ok g) w') :
    ∃ group, groupListing.Has w id group ∧
      EditsUsers (fun u => u.groups.any (Text.contains · group.name))
        (Group.renameIn group.name newName)
        (.update .groups (fun r => r.id == id) fun r => { r with name := newName }) w w' := by
  obtain ⟨group, w₁, hgroup, h₁⟩ := exec_bind_ok.mp h
  obtain ⟨all, w₂, hall, h₂⟩ := exec_bind_ok.mp h₁
  obtain ⟨_, w₃, hsave, h₃⟩ := exec_bind_ok.mp h₂
  obtain ⟨_, w₄, hlist, -, rfl⟩ := exec_bind_ok.mp h₃
  obtain ⟨hhas, rfl⟩ := exec_fetchOne.mp hgroup
  obtain rfl : group.id = id := Listing.Has.mem (L := groupListing) hhas |>.2
  exact ⟨group, hhas, editsUsers_of_exec hu (fun _ => ⟨rfl, rfl⟩) hall hsave
    (groupListing.storeUpdated_touches (fun _ => rfl) _ _) hlist⟩

theorem Group.delete_ok (hu : UniqueKey User.id (w.db .users))
    (h : Exec sem (Group.delete id) w (.ok u) w') :
    ∃ group, groupListing.Has w id group ∧
      EditsUsers (fun u => u.groups.any (Text.contains · group.name)) (·.deleteGroup group.name)
        (.delete .groups fun r => r.id == id) w w' := by
  obtain ⟨group, w₁, hgroup, h₁⟩ := exec_bind_ok.mp h
  obtain ⟨all, w₂, hall, h₂⟩ := exec_bind_ok.mp h₁
  obtain ⟨_, w₃, hsave, hlist⟩ := exec_bind_ok.mp h₂
  obtain ⟨hhas, rfl⟩ := exec_fetchOne.mp hgroup
  obtain rfl : group.id = id := Listing.Has.mem (L := groupListing) hhas |>.2
  exact ⟨group, hhas, editsUsers_of_exec hu (fun _ => ⟨rfl, rfl⟩) hall hsave
    (groupListing.storeDeleted_touches (fun _ => rfl) _) hlist⟩

theorem Client.deleteScope_id (c : Client) (scope : String) : (c.deleteScope scope).id = c.id := by
  unfold Client.deleteScope
  split <;> rfl

/-- The statements of a transaction, of which the last is about another table. -/
theorem editsClients_of_commit {cs : List Client} {p : Client → Bool} {f : Client → Client}
    {ss : List DbWrite} {w₁ w₂ : World}
    (hu : UniqueKey Client.id (w.db .clients)) (hf : ∀ c, (f c).id = c.id)
    (hcs : cs = ((w.db .clients).filter p).map f) (hdb : w₁.db = w.db)
    (hss : ss = cs.map Client.saveStmt)
    (hcommit : Exec sem (execute (ss ++ [last])) w₁ (.ok u) w₂) : EditsClients p f last w w₂ := by
  obtain ⟨db, ⟨happly, -⟩, rfl⟩ := exec_execute.mp hcommit
  rw [hdb, hss, hcs] at happly
  obtain ⟨db₁, hclients, hother, hlast⟩ := Client.saved_rows hu hf happly
  obtain ⟨db₂, h₂, hret⟩ := Option.bind_eq_some_iff.mp hlast
  cases hret
  exact ⟨db₁, hclients, hother, h₂⟩

theorem exec_begin (h : Exec sem (execute []) w (.ok u) w') : w' = w := by
  obtain ⟨db, ⟨hdb, -⟩, rfl⟩ := exec_execute.mp h
  cases hdb
  rfl

theorem Scope.delete_ok {data : AppState} (hu : UniqueKey Client.id (w.db .clients))
    (h : Exec sem (Scope.delete data id) w (.ok u) w') :
    ∃ scope, scopeListing.Has w id scope ∧ scope.name ≠ "openid" ∧
      EditsClients (Scope.isIn scope.name) (·.deleteScope scope.name)
        (.delete .scopes fun r => r.id == id) w w' := by
  obtain ⟨scope, w₁, hscope, h₁⟩ := exec_bind_ok.mp h
  obtain ⟨_, w₂, hname, h₂⟩ := exec_bind_ok.mp h₁
  obtain ⟨all, w₃, hall, h₃⟩ := exec_bind_ok.mp h₂
  obtain ⟨_, w₄, hlist, h₄⟩ := exec_bind_ok.mp h₃
  obtain ⟨_, w₅, hbegin, h₅⟩ := exec_bind_ok.mp h₄
  obtain ⟨ss, w₆, hsaves, h₆⟩ := exec_bind_ok.mp h₅
  obtain ⟨_, w₇, hsecond, h₇⟩ := exec_bind_ok.mp h₆
  obtain ⟨_, w₈, hcommit, h₈⟩ := exec_bind_ok.mp h₇
  obtain ⟨_, w₉, hstore, hrebuild⟩ := exec_bind_ok.mp h₈
  obtain ⟨hhas, rfl⟩ := exec_fetchOne.mp hscope
  obtain ⟨hne, rfl⟩ := exec_throwIf_ok.mp hname
  obtain ⟨rfl, rfl⟩ := exec_select.mp hall
  obtain ⟨hss, hframe⟩ := Client.saveAll_ok hsaves
  have hdb : w₇.db = w₃.db := by
    have h₄ : w₄.db = w₃.db := db_of_drop hlist
    have h₆ : w₆.db = w₅.db := funext fun t => hframe.db t (by simp)
    rw [exec_begin hsecond, h₆, exec_begin hbegin, h₄]
  rw [List.filter_true] at hss
  have hcommitted := editsClients_of_commit (p := Scope.isIn scope.name) hu
    (fun c => c.deleteScope_id scope.name) rfl hdb hss hcommit
  refine ⟨scope, hhas, hne, ?_⟩
  have hend : w'.db = w₈.db := by
    rw [db_of_touches (WellKnown.rebuild_touches data) hrebuild,
      db_of_touches (scopeListing.storeDeleted_touches (fun _ => rfl) _) hstore]
  unfold EditsClients at hcommitted ⊢
  rwa [hend]

/-- A client that an update of the scope has to save. -/
def Scope.renames (oldName newName : String) (c : Client) : Bool :=
  decide (oldName ≠ newName) && Scope.isIn oldName c

theorem Scope.saveRenamed_ok {oldName : String} {ss : List DbWrite}
    (h : Exec sem (Scope.saveRenamed oldName newName) w (.ok ss) w') :
    w'.db = w.db ∧ ss = (((w.db .clients).filter (Scope.renames oldName newName)).map
      (Scope.renameIn oldName newName)).map Client.saveStmt := by
  unfold Scope.saveRenamed at h
  split at h
  · next heq =>
      obtain ⟨hss, rfl⟩ := h
      cases hss
      have hnone : (w'.db .clients).filter (Scope.renames oldName newName) = [] := by
        rw [List.filter_eq_nil_iff]
        intro c _
        simp [Scope.renames, heq]
      rw [hnone]
      exact ⟨rfl, rfl⟩
  · next hne =>
      obtain ⟨all, w₁, hall, h₁⟩ := exec_bind_ok.mp h
      obtain ⟨_, w₂, hlist, hsaves⟩ := exec_bind_ok.mp h₁
      obtain ⟨rfl, rfl⟩ := exec_select.mp hall
      obtain ⟨hss, hframe⟩ := Client.saveAll_ok hsaves
      have hsame : Scope.renames oldName newName = Scope.isIn oldName := by
        funext c
        simp [Scope.renames, hne]
      rw [List.filter_true] at hss
      rw [hsame]
      refine ⟨?_, hss⟩
      have h₂ := db_of_drop hlist
      rw [← h₂]
      exact funext fun t => hframe.db t (by simp)

theorem UserAttrConfigEntity.findAll_touches :
    Touches [] [(.users, .userAttrs)] UserAttrConfigEntity.findAll :=
  touches_cached (touches_select _ _) (by simp [CacheVal.slot])

theorem Scope.update_ok {data : AppState} {req : ScopeRequest} {s : Scope}
    (hu : UniqueKey Client.id (w.db .clients))
    (h : Exec sem (Scope.update data id req) w (.ok s) w') :
    ∃ scope, scopeListing.Has w id scope ∧ scope.name ≠ "openid" ∧
      EditsClients (Scope.renames scope.name req.scope) (Scope.renameIn scope.name req.scope)
        (.update .scopes (fun r => r.id == s.id) fun r => { s with id := r.id }) w w' := by
  obtain ⟨scope, w₁, hscope, h₁⟩ := exec_bind_ok.mp h
  obtain ⟨_, w₂, hname, h₂⟩ := exec_bind_ok.mp h₁
  obtain ⟨_, w₃, hmapping, h₃⟩ := exec_bind_ok.mp h₂
  obtain ⟨_, w₄, hbegin, h₄⟩ := exec_bind_ok.mp h₃
  obtain ⟨ss, w₅, hsaves, h₅⟩ := exec_bind_ok.mp h₄
  obtain ⟨attrs, w₆, hattrs, h₆⟩ := exec_bind_ok.mp h₅
  obtain ⟨_, w₇, hsecond, h₇⟩ := exec_bind_ok.mp h₆
  obtain ⟨_, w₈, hcommit, h₈⟩ := exec_bind_ok.mp h₇
  obtain ⟨_, w₉, hstore, h₉⟩ := exec_bind_ok.mp h₈
  obtain ⟨_, w₁₀, hrebuild, hret, rfl⟩ := exec_bind_ok.mp h₉
  obtain ⟨hhas, rfl⟩ := exec_fetchOne.mp hscope
  obtain ⟨hne, rfl⟩ := exec_throwIf_ok.mp hname
  obtain ⟨-, rfl⟩ := exec_throwIf_ok.mp hmapping
  obtain rfl := exec_begin hbegin
  cases hret
  obtain ⟨hdb, hss⟩ := Scope.saveRenamed_ok hsaves
  have hdb' : w₇.db = w₄.db := by
    rw [exec_begin hsecond, db_of_touches UserAttrConfigEntity.findAll_touches hattrs, hdb]
  have hcommitted := editsClients_of_commit (f := Scope.renameIn scope.name req.scope) hu
    (fun _ => rfl) rfl hdb' hss hcommit
  refine ⟨scope, hhas, hne, ?_⟩
  have hend : w'.db = w₈.db := by
    rw [db_of_touches (touches_runIf (WellKnown.rebuild_touches data)) hrebuild,
      db_of_touches (scopeListing.storeUpdated_touches (fun _ => rfl) _ _) hstore]
  unfold EditsClients at hcommitted ⊢
  rwa [hend]

end Operations

/-- One role, and one user with the roles of a text. -/
def roleWorld (name roles : String) : World where
  clock := 0
  issued := []
  db := Function.update
    (Function.update (fun _ => []) .roles [({ id := "role", name } : Role)])
    .users [({ sampleUser with roles } : User)]
  cache := fun _ _ => none

theorem uniqueUsers_roleWorld (name roles : String) :
    UniqueKey User.id ((roleWorld name roles).db .users) := List.nodup_singleton _

theorem uniqueClients_roleWorld (name roles : String) :
    UniqueKey Client.id ((roleWorld name roles).db .clients) := List.nodup_nil

end Rauthy
