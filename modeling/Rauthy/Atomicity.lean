/-
Rauthy/Atomicity.lean

What an edit of roles, groups or scopes, or of a client that registered itself, leaves behind when
it fails.  The statements about users and clients wait for the commit, but the caches are filled
and the sessions of disabled users are ended before it, and the lists are stored after it.

Main result: `failed_edit_iff`, the states in which a failed edit leaves the tables and the caches
as they were: those in which there is nothing that the edit could change.
-/
import Mathlib.Data.Fintype.BigOperators
import Mathlib.Data.Set.Finite.Lattice
import Rauthy.Transactions

namespace Rauthy

open Prog

/-- The tables are the same, and the caches have no other entries.  Any entry may expire. -/
structure AsBefore (w w' : World) : Prop where
  rows : w'.db = w.db
  entries : ∀ c k v, w'.cache c k = some v → w.cache c k = some v

/-- An operation that runs in a transaction. -/
inductive Edit where
  | updateRole (id newName : String)
  | deleteRole (id : String)
  | updateGroup (id newName : String)
  | deleteGroup (id : String)
  | updateScope (id : String) (req : ScopeRequest)
  | deleteScope (id : String)
  | updateDynamic (req : DynamicClientRequest) (dyn : ClientDyn)

/-- No session and no refresh token of the user is left to be ended. -/
def NothingToEnd (w : World) (u : User) : Prop :=
  (∀ s ∈ w.db .sessions, s.userId ≠ some u.id) ∧
    ∀ rt ∈ w.db .refreshTokens, rt.userId = u.id → rt.exp ≤ w.clock / 1000

/-- A save of the user as it is changes nothing. -/
structure SavedAlready (w : World) (u : User) : Prop where
  byId : w.cache .users (User.cacheIdx u.id) = some (.user u)
  byEmail : w.cache .users (User.cacheIdx u.email) = some (.user u)
  ended : u.enabled = false → NothingToEnd w u

/-- The table is cached as a list. -/
def Listing.Cached {t : Table} (L : Listing t) (w : World) : Prop :=
  w.cache .c12hr L.key = some (L.wrap (w.db t))

namespace Edit

def prog (data : AppState) : Edit → M ErrorResponse Unit
  | updateRole id newName => do let _ ← Role.update id newName
  | deleteRole id => Role.delete id
  | updateGroup id newName => do let _ ← Group.update id newName
  | deleteGroup id => Group.delete id
  | updateScope id req => do let _ ← Scope.update data id req
  | deleteScope id => Scope.delete data id
  | updateDynamic req dyn => do let _ ← Client.updateDynamic data req dyn

/-- The edit is refused, or it sets what is stored and cached already. -/
def Harmless (w : World) : Edit → Prop
  | updateRole id newName => ∀ role, roleListing.Has w id role →
      newName = role.name ∧ roleListing.Cached w ∧
        ∀ u ∈ w.db .users, Text.contains u.roles role.name = true → SavedAlready w u
  | deleteRole id => ∀ role, roleListing.Has w id role → role.name = roleAdmin
  | updateGroup id newName => ∀ group, groupListing.Has w id group →
      newName = group.name ∧ groupListing.Cached w ∧
        ∀ u ∈ w.db .users, u.groups.any (Text.contains · group.name) = true → SavedAlready w u
  | deleteGroup id => ∀ group, ¬ groupListing.Has w id group
  | updateScope id req => ∀ scope, scopeListing.Has w id scope →
      scope.name = "openid" ∨
      (Scope.isCustom req.scope = false ∧
        (req.attrIncludeAccess.isSome = true ∨ req.attrIncludeId.isSome = true)) ∨
      (w.cache .users "user_attrs_" = some (.userAttrs (w.db .userAttrConfig)) ∧
        Scope.fromReq scope.id req (w.db .userAttrConfig) = scope ∧ scopeListing.Cached w)
  | deleteScope id => ∀ scope, scopeListing.Has w id scope → scope.name = "openid"
  | updateDynamic _ dyn =>
      (∀ c, w.cache .c12hr (Client.getCacheEntry dyn.id) = some (.client c) → c.isDynamic = false) ∧
        ∀ c, ((w.db .clients).filter fun c => c.id == dyn.id).head? = some c →
          w.cache .c12hr (Client.getCacheEntry c.id) = some (.client c) ∧ c.isDynamic = false

end Edit

/-! ### Programs that can succeed -/

/-- From every state the program can succeed, without taking time and without drawing texts. -/
def CanAnswer {α : Type} (p : M ErrorResponse α) : Prop :=
  ∀ w, ∃ a w', Exec sem p w (.ok a) w' ∧ w'.clock = w.clock ∧ w'.issued = w.issued

section CanAnswer

variable {α β : Type}

theorem canAnswer_ret (a : α) : CanAnswer (.ret a : M ErrorResponse α) :=
  fun w => ⟨a, w, ⟨rfl, rfl⟩, rfl, rfl⟩

theorem canAnswer_bind {p : M ErrorResponse α} {f : α → M ErrorResponse β} (hp : CanAnswer p)
    (hf : ∀ a, CanAnswer (f a)) : CanAnswer (p >>= f) := by
  intro w
  obtain ⟨a, w₁, ha, hclock₁, hissued₁⟩ := hp w
  obtain ⟨b, w₂, hb, hclock₂, hissued₂⟩ := hf a w₁
  exact ⟨b, w₂, exec_bind_ok.mpr ⟨a, w₁, ha, hb⟩, hclock₂.trans hclock₁,
    hissued₂.trans hissued₁⟩

theorem canAnswer_runIf {c : Prop} [Decidable c] {p : M ErrorResponse Unit} (hp : CanAnswer p) :
    CanAnswer (runIf c p) := by
  unfold runIf
  split
  · exact hp
  · exact canAnswer_ret ()

theorem canAnswer_forEach {f : α → M ErrorResponse Unit} {l : List α}
    (hf : ∀ a, CanAnswer (f a)) : CanAnswer (forEach f l) := by
  induction l with
  | nil => exact canAnswer_ret ()
  | cons a l ih => exact canAnswer_bind (hf a) fun _ => ih

theorem canAnswer_select (t : Table) (p : Row t → Bool) : CanAnswer (select t p) :=
  fun w => ⟨_, w, exec_select.mpr ⟨rfl, rfl⟩, rfl, rfl⟩

theorem canAnswer_cachePut (c : CacheName) (k : String) (v : CacheVal) :
    CanAnswer (cachePut c k v) := fun _ => ⟨(), _, exec_cachePut.mpr rfl, rfl, rfl⟩

theorem canAnswer_cacheDel (c : CacheName) (k : String) : CanAnswer (cacheDel c k) :=
  fun _ => ⟨(), _, exec_cacheDel.mpr rfl, rfl, rfl⟩

theorem canAnswer_unixTimestamp : CanAnswer unixTimestamp :=
  fun w => ⟨w.clock / 1000, w, exec_unixTimestamp.mpr ⟨w.clock, rfl, le_refl _, rfl⟩, rfl, rfl⟩

theorem canAnswer_cached {c : CacheName} {k : String} {as : CacheVal → Option α}
    {wrap : α → CacheVal} {load : M ErrorResponse α} (hload : CanAnswer load) :
    CanAnswer (cached c k as wrap load) := by
  have hget : CanAnswer (do
      let a ← load
      cachePut c k (wrap a)
      return a) :=
    canAnswer_bind hload fun _ => canAnswer_bind (canAnswer_cachePut _ _ _) fun _ => canAnswer_ret _
  intro w
  obtain ⟨a, w', h, hclock, hissued⟩ := hget (w.del c k)
  exact ⟨a, w', exec_bind_ok.mpr ⟨none, _, exec_cacheGet.mpr (.inl ⟨rfl, .inl rfl⟩), h⟩, hclock,
    hissued⟩

/-- The statement is not refused by an index. -/
def DbWrite.Accepted : DbWrite → Prop
  | .insert _ _ => False
  | _ => True

theorem applyAll_accepted {ss : List DbWrite} (hss : ∀ s ∈ ss, s.Accepted) (db : Db) :
    ∃ db', applyAll ss db = some db' := by
  induction ss generalizing db with
  | nil => exact ⟨db, rfl⟩
  | cons s ss ih =>
      obtain ⟨hs, hss⟩ := List.forall_mem_cons.mp hss
      have happly : ∃ db', s.apply db = some db' := by
        cases s with
        | insert t r => exact absurd hs not_false
        | _ => exact ⟨_, rfl⟩
      obtain ⟨db₁, h₁⟩ := happly
      obtain ⟨db', h'⟩ := ih hss db₁
      refine ⟨db', ?_⟩
      rw [applyAll, h₁]
      exact h'

theorem canAnswer_execute {ss : List DbWrite} (hss : ∀ s ∈ ss, s.Accepted ∧ s.table ≠ .users) :
    CanAnswer (execute ss) := by
  intro w
  obtain ⟨db, hdb⟩ := applyAll_accepted (fun s hs => (hss s hs).1) w.db
  have husers : db .users = w.db .users := applyAll_frame hdb fun s hs => (hss s hs).2
  have hcommits : Commits ss w.db db := .of_emails hdb (by rw [husers])
  exact ⟨(), _, exec_execute.mpr ⟨db, hcommits, rfl⟩, rfl, rfl⟩

end CanAnswer

theorem Session.canAnswer_save (s : Session) : CanAnswer s.save :=
  canAnswer_bind (canAnswer_execute (by simp [DbWrite.Accepted, DbWrite.table])) fun _ => canAnswer_cachePut _ _ _

theorem Session.canAnswer_invalidateEach (now : Int) (uid : String) (ss : List Session) :
    CanAnswer (Session.invalidateEach now uid ss) := by
  induction ss with
  | nil => exact canAnswer_ret []
  | cons s ss ih =>
      unfold Session.invalidateEach
      split
      · exact canAnswer_bind (Session.canAnswer_save _) fun _ =>
          canAnswer_bind ih fun _ => canAnswer_ret _
      · exact ih

theorem Session.canAnswer_rest (now : Int) (uid : String) (ss : List Session) :
    CanAnswer (do
      let removed ← Session.invalidateEach now uid ss
      forEach (fun id => cacheDel .sessions (Session.cacheIdx id)) removed) :=
  canAnswer_bind (Session.canAnswer_invalidateEach now uid ss) fun _ =>
    canAnswer_forEach fun _ => canAnswer_cacheDel _ _

theorem User.canAnswer_end (u : User) :
    CanAnswer (do
      Session.invalidateForUser u.id
      RefreshToken.invalidateForUser u.id) := by
  refine canAnswer_bind ?_ fun _ => ?_
  · refine canAnswer_bind canAnswer_unixTimestamp fun _ => ?_
    refine canAnswer_bind ?_ fun _ => Session.canAnswer_rest _ _ _
    exact canAnswer_bind (canAnswer_select _ _) fun _ => canAnswer_ret _
  · exact canAnswer_bind canAnswer_unixTimestamp fun _ =>
      canAnswer_execute (by simp [DbWrite.Accepted, DbWrite.table])

theorem User.canAnswer_saveCached (u : User) (oldEmail : Option String) :
    CanAnswer (u.saveCached oldEmail) := by
  refine canAnswer_bind (canAnswer_runIf u.canAnswer_end) fun _ => ?_
  refine canAnswer_bind (canAnswer_forEach fun _ => canAnswer_cacheDel _ _) fun _ => ?_
  exact canAnswer_bind (canAnswer_cachePut _ _ _) fun _ => canAnswer_cachePut _ _ _

theorem User.canAnswer_saveTxn (u : User) : CanAnswer u.saveTxn :=
  canAnswer_bind (canAnswer_execute (by simp)) fun _ =>
    canAnswer_bind (u.canAnswer_saveCached none) fun _ => canAnswer_ret _

theorem User.canAnswer_saveAll (us : List User) : CanAnswer (User.saveAll us) := by
  induction us with
  | nil => exact canAnswer_ret []
  | cons u us ih =>
      exact canAnswer_bind u.canAnswer_saveTxn fun _ => canAnswer_bind ih fun _ => canAnswer_ret _

theorem Client.canAnswer_saveTxn (c : Client) : CanAnswer c.saveTxn := by
  refine canAnswer_bind (canAnswer_execute (by simp)) fun _ => ?_
  refine canAnswer_bind (canAnswer_cachePut _ _ _) fun _ => ?_
  refine canAnswer_bind (canAnswer_select _ _) fun _ => ?_
  exact canAnswer_bind (canAnswer_cachePut _ _ _) fun _ => canAnswer_ret _

theorem Client.canAnswer_saveAll (cs : List Client) : CanAnswer (Client.saveAll cs) := by
  induction cs with
  | nil => exact canAnswer_ret []
  | cons c cs ih =>
      exact canAnswer_bind c.canAnswer_saveTxn fun _ => canAnswer_bind ih fun _ => canAnswer_ret _

/-! ### What a clean failure says about the way there -/

/-- Whatever error the program ends with, the state is as it was at the beginning. -/
def FailsClean {α : Type} (w₀ : World) (p : M ErrorResponse α) (w : World) : Prop :=
  ∀ e w', Exec sem p w (.error (.err e)) w' → AsBefore w₀ w'

section FailsClean

variable {α β : Type} {w₀ w w' : World}
  {c : CacheName} {k : String} {t : Table} {u : User}
  {f : β → M ErrorResponse α} {as : CacheVal → Option (List (Row t))}
  {wrap : List (Row t) → CacheVal} {L : Listing t}

theorem FailsClean.run {p : M ErrorResponse β} {b : β} (h : FailsClean w₀ (p >>= f) w)
    (hx : Exec sem p w (.ok b) w') : FailsClean w₀ (f b) w' :=
  fun e w₁ hf => h e w₁ (exec_bind.mpr (.inr ⟨b, w', hx, hf⟩))

theorem FailsClean.left {p : M ErrorResponse β} (h : FailsClean w₀ (p >>= f) w) :
    FailsClean w₀ p w :=
  fun e w₁ hp => h e w₁ (exec_bind.mpr (.inl ⟨_, rfl, hp⟩))

theorem FailsClean.put {v : CacheVal} (h : FailsClean w₀ (cachePut c k v) w) :
    w₀.cache c k = some v := by
  have hx : Exec sem (cachePut c k v) w (.error (.err default)) (w.put c k v) :=
    exec_call.mpr ⟨.error default, _, sem_cachePut.mpr (.inr ⟨_, rfl, .inr rfl⟩), rfl, rfl⟩
  refine (h _ _ hx).entries c k v ?_
  rw [World.put_cache]
  simp

theorem FailsClean.get {as : CacheVal → Option α} (h : FailsClean w₀ (cacheGet c k as) w) :
    AsBefore w₀ w := by
  have hx : Exec sem (call (.cacheGet c k) answer : M ErrorResponse (Option CacheVal)) w
      (.error (.err default)) w :=
    exec_call.mpr ⟨.error default, _, sem_cacheGet.mpr (.inr (.inr ⟨_, rfl, rfl⟩)), rfl, rfl⟩
  exact h _ _ (exec_bind.mpr (.inl ⟨_, rfl, hx⟩))

/-- The statements may not be applied, or be applied although the call fails. -/
theorem FailsClean.execute {ss : List DbWrite} (h : FailsClean w₀ (execute ss) w) :
    AsBefore w₀ w ∧ ∀ db, Commits ss w.db db → db = w₀.db := by
  have hfail : ∀ w', sem (.execute ss) w (.error default) w' →
      Exec sem (Rauthy.execute ss) w (.error (.err default)) w' := fun w' hx =>
    exec_call.mpr ⟨.error default, w', hx, rfl, rfl⟩
  refine ⟨h _ _ (hfail _ (sem_execute.mpr (.inl ⟨_, rfl, rfl⟩))), fun db hdb => ?_⟩
  exact (h _ _ (hfail _ (sem_execute.mpr (.inr ⟨db, hdb, rfl⟩)))).rows

theorem FailsClean.cached (h : FailsClean w₀ (cached c k as wrap (select t fun _ => true)) w) :
    AsBefore w₀ w ∧ w₀.cache c k = some (wrap (w.db t)) := by
  have hmiss : Exec sem (cacheGet c k as) w (.ok none) (w.del c k) :=
    exec_cacheGet.mpr (.inl ⟨rfl, .inl rfl⟩)
  have hrows : Exec sem (select t fun _ => true) (w.del c k) (.ok ((w.db t).filter fun _ => true))
      (w.del c k) := exec_select.mpr ⟨rfl, rfl⟩
  have hput := ((h.run hmiss).run hrows).left.put
  rw [List.filter_true] at hput
  exact ⟨h.left.get, hput⟩

/-! ### Users -/

theorem exec_begin_ok : Exec sem (Rauthy.execute []) w (.ok ()) w :=
  exec_execute.mpr ⟨w.db, ⟨rfl, fun h => h⟩, rfl⟩

theorem FailsClean.invalidateEach {now : Int} {uid : String} {ss : List Session}
    (h : FailsClean w₀ (Session.invalidateEach now uid ss) w)
    (hss : ∃ s ∈ ss, s.userId = some uid) : ∃ r ∈ w₀.db .sessions, r.exp = now := by
  induction ss with
  | nil =>
      obtain ⟨s, hs, -⟩ := hss
      cases hs
  | cons s ss ih =>
      unfold Session.invalidateEach at h
      split at h
      · next hs =>
          -- the row is written at once
          have hdb := h.left.left.execute.2 _ ⟨rfl, fun h => h⟩
          refine ⟨{ s with exp := now }, ?_, rfl⟩
          rw [← hdb, Function.update_self]
          exact List.mem_append_right _ (List.mem_singleton_self _)
      · next hs =>
          obtain ⟨s', hs', huid⟩ := hss
          rcases List.mem_cons.mp hs' with rfl | hs'
          · exact absurd huid hs
          · exact ih h ⟨s', hs', huid⟩

theorem invalidateEach_of_none {now : Int} {uid : String} {ss : List Session}
    (hss : ∀ s ∈ ss, s.userId ≠ some uid) : Session.invalidateEach now uid ss = .ret [] := by
  induction ss with
  | nil => rfl
  | cons s ss ih =>
      obtain ⟨hs, hss⟩ := List.forall_mem_cons.mp hss
      unfold Session.invalidateEach
      rw [if_neg hs]
      exact ih hss

theorem FailsClean.nothingToEnd (h : FailsClean w₀ (do
      Session.invalidateForUser u.id
      RefreshToken.invalidateForUser u.id) w) (hrows : w.db = w₀.db) (hclock : w.clock = w₀.clock) :
    NothingToEnd w₀ u := by
  have hfind : ∀ w : World, Exec sem Session.findAll w
      (.ok ((w.db .sessions).insertionSort fun a b => b.exp ≤ a.exp)) w := by
    intro w
    refine exec_bind_ok.mpr ⟨_, w, exec_select.mpr ⟨rfl, rfl⟩, ?_⟩
    rw [List.filter_true]
    exact ⟨rfl, rfl⟩
  have hsessions : ∀ s ∈ w₀.db .sessions, s.userId ≠ some u.id := by
    intro s hs huid
    obtain ⟨m, hm⟩ := ((List.finite_toSet (w₀.db .sessions)).image Session.exp).bddAbove
    have hm : ∀ r ∈ w₀.db .sessions, r.exp ≤ m := fun r hr => hm ⟨r, hr, rfl⟩
    -- a time at which no session of the table ends
    have htime : Exec sem (unixTimestamp : M ErrorResponse Int) w
        (.ok (max w.clock ((m + 1) * 1000) / 1000))
        { w with clock := max w.clock ((m + 1) * 1000) } :=
      exec_unixTimestamp.mpr ⟨_, rfl, le_max_left _ _, rfl⟩
    have heach := ((h.left.run htime).run (hfind _)).left
    obtain ⟨r, hr, hexp⟩ := heach.invalidateEach
      ⟨s, ((List.perm_insertionSort _ _).mem_iff).mpr (by rw [hrows]; exact hs), huid⟩
    have hle := hm r hr
    have hmax := le_max_right w.clock ((m + 1) * 1000)
    omega
  refine ⟨hsessions, fun rt hrt huid => ?_⟩
  have htime : ∀ w : World, Exec sem (unixTimestamp : M ErrorResponse Int) w
      (.ok (w.clock / 1000)) w := fun w => exec_unixTimestamp.mpr ⟨_, rfl, le_refl _, rfl⟩
  have hnone : Exec sem (Session.invalidateForUser u.id) w (.ok ()) w := by
    refine exec_bind_ok.mpr ⟨_, w, htime w, exec_bind_ok.mpr ⟨_, w, hfind w, ?_⟩⟩
    rw [invalidateEach_of_none fun s hs => ?_]
    · exact ⟨rfl, rfl⟩
    · rw [(List.perm_insertionSort _ _).mem_iff, hrows] at hs
      exact hsessions s hs
  have hdb := ((h.run hnone).run (htime w)).execute.2 _ ⟨rfl, fun h => h⟩
  have hmap : (w₀.db .refreshTokens).map (fun r =>
      if (decide (r.exp > w.clock / 1000) && r.userId == u.id) = true
      then { r with exp := w.clock / 1000 } else r) = w₀.db .refreshTokens := by
    conv_rhs => rw [← hdb, Function.update_self, hrows]
  have hfix := List.map_inj_left.mp (hmap.trans (List.map_id _).symm) rt hrt
  by_contra hlate
  rw [not_le, ← hclock] at hlate
  rw [if_pos (by simp [hlate, huid])] at hfix
  have hexp : w.clock / 1000 = rt.exp := congrArg RefreshToken.exp hfix
  omega

theorem FailsClean.savedAlready (h : FailsClean w₀ u.saveTxn w) (hclock : w.clock = w₀.clock) :
    SavedAlready w₀ u := by
  have hbefore := h.left.execute.1
  have hcached := (h.run exec_begin_ok).left
  obtain ⟨_, w₁, hend, -, -⟩ := canAnswer_runIf (c := u.enabled = false) u.canAnswer_end w
  have hnoMail : Exec sem (forEach (fun email => cacheDel .users (User.cacheIdx email)) [] :
      M ErrorResponse Unit) w₁ (.ok ()) w₁ := ⟨rfl, rfl⟩
  have hputs := (hcached.run hend).run hnoMail
  refine ⟨hputs.left.put, (hputs.run (b := ()) (exec_cachePut.mpr rfl)).put, fun hoff => ?_⟩
  have hcalls := hcached.left
  unfold runIf at hcalls
  rw [if_pos hoff] at hcalls
  exact hcalls.nothingToEnd hbefore.rows hclock

theorem FailsClean.saveAll {us : List User} (h : FailsClean w₀ (User.saveAll us) w)
    (hclock : w.clock = w₀.clock) : ∀ u ∈ us, SavedAlready w₀ u := by
  induction us generalizing w with
  | nil =>
      intro u hu
      cases hu
  | cons u us ih =>
      rw [List.forall_mem_cons]
      obtain ⟨s, w₁, hsave, hclock₁, -⟩ := u.canAnswer_saveTxn w
      exact ⟨h.left.savedAlready hclock, ih (h.run hsave).left (hclock₁.trans hclock)⟩

/-- **Users are saved in a transaction with a statement about another table**, and then more is
called that can fail at once. -/
theorem FailsClean.saveEdited {us : List User} {last : DbWrite} {q : M ErrorResponse α}
    (h : FailsClean w₀ (User.saveEdited us last >>= fun _ => q) w₀)
    (hmail : ∀ u ∈ us, ∀ r ∈ w₀.db .users, r.id = u.id → u.email = r.email) (hlast : last.Accepted)
    (hlastTable : last.table ≠ .users) (ht : t ∉ [Table.users, .sessions, .refreshTokens])
    (hq : ∀ w, FailsClean w₀ q w → AsBefore w₀ w) :
    (∀ u ∈ us, SavedAlready w₀ u) ∧
      (∃ w, w.db = w₀.db ∧ FailsClean w₀ q w) ∧
      ∃ db, db t = w₀.db t ∧ last.apply db = some w₀.db := by
  have haccepted : ∀ s ∈ us.map User.saveStmt ++ [last], s.Accepted := by
    intro s hs
    rcases List.mem_append.mp hs with hs | hs
    · obtain ⟨u, -, rfl⟩ := List.mem_map.mp hs
      exact trivial
    · rw [List.mem_singleton.mp hs]
      exact hlast
  have hothers : ∀ s ∈ us.map User.saveStmt, s.table ≠ t := by
    intro s hs he
    obtain ⟨u, -, rfl⟩ := List.mem_map.mp hs
    exact ht (by rw [← he]; exact List.mem_cons_self)
  -- up to the saves
  obtain ⟨_, w₁, hlist, hclock₁, -⟩ :=
    canAnswer_runIf (c := us ≠ []) (canAnswer_cacheDel .c12hr "users_") w₀
  have hdb₁ : w₁.db = w₀.db := db_of_drop hlist
  have hsaves := (h.left.run hlist).run exec_begin_ok
  refine ⟨hsaves.left.saveAll hclock₁, ?_⟩
  -- from the saves to the commit
  obtain ⟨ss, w₂, hsave, -, -⟩ := User.canAnswer_saveAll us w₁
  obtain ⟨rfl, hframe⟩ := User.saveAll_ok hsave
  obtain ⟨db, hdb⟩ := applyAll_accepted haccepted w₂.db
  have husers : w₂.db .users = w₀.db .users := by rw [hframe.db .users (by simp), hdb₁]
  have hemails := emails_of_saves (by rwa [husers]) hlastTable hdb
  have hcommit : Exec sem (Rauthy.execute (us.map User.saveStmt ++ [last])) w₂ (.ok ())
      { w₂ with db } := exec_execute.mpr ⟨db, .of_emails hdb hemails, rfl⟩
  have hedited : Exec sem (User.saveEdited us last) w₀ (.ok ()) { w₂ with db } :=
    exec_bind_ok.mpr ⟨_, w₁, hlist, exec_bind_ok.mpr ⟨_, w₁, exec_begin_ok,
      exec_bind_ok.mpr ⟨_, w₂, hsave, exec_bind_ok.mpr ⟨_, w₂, exec_begin_ok, hcommit⟩⟩⟩⟩
  have hrest := h.run hedited
  have hrows : db = w₀.db := (hq _ hrest).rows
  subst hrows
  obtain ⟨db₁, ht₁, happly⟩ := applyAll_last hothers hdb
  refine ⟨⟨{ w₂ with db := w₀.db }, rfl, hrest⟩, db₁, ht₁.trans ?_, happly⟩
  rw [hframe.db t fun hm => ht (List.mem_cons_of_mem _ hm), hdb₁]

theorem FailsClean.findAll (h : FailsClean w₀ L.findAll w) (hrows : w.db = w₀.db) :
    L.Cached w₀ := by
  have hcached := h.cached.2
  rwa [hrows] at hcached

theorem User.exec_findAll : Exec sem User.findAll w
    (.ok ((w.db .users).insertionSort fun u v => u.createdAt ≤ v.createdAt)) w := by
  refine exec_bind_ok.mpr ⟨_, w, exec_select.mpr ⟨rfl, rfl⟩, ?_⟩
  rw [List.filter_true]
  exact ⟨rfl, rfl⟩

theorem FailsClean.storeUpdated {id : String} {f : Row t → Row t} {g : Unit → M ErrorResponse α}
    (h : FailsClean w₀ (L.storeUpdated id f >>= g) w) :
    AsBefore w₀ w ∧ (w.db = w₀.db → L.Cached w₀) :=
  ⟨h.left.left.cached.1, h.left.left.findAll⟩

theorem FailsClean.storeDeleted {id : String} (h : FailsClean w₀ (L.storeDeleted id) w) :
    AsBefore w₀ w := h.left.cached.1

/-- An update that leaves the table as it is sets what the row has. -/
theorem row_of_update {db : Db} {p : Row t → Bool} {f : Row t → Row t} {r : Row t}
    (ht : db t = w.db t) (h : (DbWrite.update t p f).apply db = some w.db) (hr : r ∈ w.db t)
    (hp : p r = true) : f r = r := by
  have hmap : (w.db t).map (fun r => if p r = true then f r else r) = w.db t := by
    conv_rhs => rw [← Option.some.inj h, Function.update_self, ht]
  have hfix := List.map_inj_left.mp (hmap.trans (List.map_id _).symm) r hr
  rwa [if_pos hp] at hfix

/-- A deletion that leaves the table as it is finds no row. -/
theorem no_row_of_delete {db : Db} {p : Row t → Bool} {r : Row t} (ht : db t = w.db t)
    (h : (DbWrite.delete t p).apply db = some w.db) (hr : r ∈ w.db t) :
    ¬ p r = true := by
  have hfilter : (w.db t).filter (fun r => !p r) = w.db t := by
    conv_rhs => rw [← Option.some.inj h, Function.update_self, ht]
  have hkept := List.filter_eq_self.mp hfilter r hr
  simpa using hkept

theorem Text.replace_same (s p : String) : Text.replace s p p = s := by
  rw [← String.toList_inj, Text.toList_replace]
  by_cases hp : p.toList = []
  · rw [hp, Csv.replace, if_pos rfl]
    simp
  · exact Csv.replace_id hp _

theorem Role.renameIn_same (name : String) (u : User) : Role.renameIn name name u = u := by
  unfold Role.renameIn
  rw [Text.replace_same]

theorem Group.renameIn_same (name : String) (u : User) : Group.renameIn name name u = u := by
  have hsame : ∀ g : String, Text.replace g name name = g := fun g => Text.replace_same g name
  unfold Group.renameIn
  simp only [hsame, Option.map_id']

theorem mail_of_edited {p : User → Bool} {f : User → User}
    (hu : UniqueKey User.id (w.db .users)) (hf : ∀ u, (f u).id = u.id ∧ (f u).email = u.email) :
    ∀ u ∈ (((w.db .users).insertionSort fun u v => u.createdAt ≤ v.createdAt).filter p).map f,
      ∀ r ∈ w.db .users, r.id = u.id → u.email = r.email := by
  intro u hmem r hr hid
  obtain ⟨v, hv, rfl⟩ := List.mem_map.mp hmem
  have hv := (List.perm_insertionSort _ _).mem_iff.mp (List.mem_filter.mp hv).1
  rw [(hf v).1] at hid
  rw [(hf v).2, hu.inj hr hv hid]

theorem mem_edited {p : User → Bool} {f : User → User} (hu : u ∈ w.db .users) (hp : p u = true)
    (hf : f u = u) :
    u ∈ (((w.db .users).insertionSort fun u v => u.createdAt ≤ v.createdAt).filter p).map f :=
  List.mem_map.mpr ⟨u, List.mem_filter.mpr ⟨(List.perm_insertionSort _ _).mem_iff.mpr hu, hp⟩, hf⟩

variable {data : AppState} {id newName : String}

theorem Edit.harmless_of_updateRole (hu : UniqueKey User.id (w.db .users))
    (h : FailsClean w (Role.update id newName) w) :
    (Edit.updateRole id newName).Harmless w := by
  intro role hhas
  have hsave := (h.run (exec_fetchOne.mpr ⟨hhas, rfl⟩)).run User.exec_findAll
  obtain ⟨husers, ⟨w₁, hrows, hlist⟩, db, hdb, hlast⟩ := hsave.saveEdited (t := .roles)
    (mail_of_edited hu fun _ => ⟨rfl, rfl⟩) trivial (by simp [DbWrite.table]) (by simp) fun w₁ hw₁ => hw₁.storeUpdated.1
  have hid : role.id = id := hhas.mem.2
  have hrow := row_of_update hdb hlast hhas.mem.1 (beq_iff_eq.mpr hid)
  have hname : newName = role.name := congrArg Role.name hrow
  refine ⟨hname, hlist.storeUpdated.2 hrows, fun u hu hin => husers u (mem_edited hu hin ?_)⟩
  rw [hname]
  exact Role.renameIn_same _ u

theorem Edit.harmless_of_deleteRole (hu : UniqueKey User.id (w.db .users))
    (h : FailsClean w (Role.delete id) w) :
    (Edit.deleteRole id).Harmless w := by
  intro role hhas
  by_contra hname
  have hsave := ((h.run (exec_fetchOne.mpr ⟨hhas, rfl⟩)).run (b := ())
    (exec_throwIf_ok.mpr ⟨hname, rfl⟩)).run User.exec_findAll
  obtain ⟨-, -, db, hdb, hlast⟩ := hsave.saveEdited (t := .roles)
    (mail_of_edited hu fun _ => ⟨rfl, rfl⟩) trivial (by simp [DbWrite.table]) (by simp) fun w₁ hw₁ => hw₁.storeDeleted
  have hid : role.id = id := hhas.mem.2
  exact no_row_of_delete hdb hlast hhas.mem.1 (beq_iff_eq.mpr hid)

theorem Edit.harmless_of_updateGroup (hu : UniqueKey User.id (w.db .users))
    (h : FailsClean w (Group.update id newName) w) :
    (Edit.updateGroup id newName).Harmless w := by
  intro group hhas
  have hsave := (h.run (exec_fetchOne.mpr ⟨hhas, rfl⟩)).run User.exec_findAll
  obtain ⟨husers, ⟨w₁, hrows, hlist⟩, db, hdb, hlast⟩ := hsave.saveEdited (t := .groups)
    (mail_of_edited hu fun _ => ⟨rfl, rfl⟩) trivial (by simp [DbWrite.table]) (by simp) fun w₁ hw₁ => hw₁.storeUpdated.1
  have hrow := row_of_update hdb hlast hhas.mem.1 (beq_self_eq_true _)
  have hname : newName = group.name := congrArg Group.name hrow
  refine ⟨hname, hlist.storeUpdated.2 hrows, fun u hu hin => husers u (mem_edited hu hin ?_)⟩
  rw [hname]
  exact Group.renameIn_same _ u

theorem Edit.harmless_of_deleteGroup (hu : UniqueKey User.id (w.db .users))
    (h : FailsClean w (Group.delete id) w) :
    (Edit.deleteGroup id).Harmless w := by
  intro group hhas
  have hsave := (h.run (exec_fetchOne.mpr ⟨hhas, rfl⟩)).run User.exec_findAll
  obtain ⟨-, -, db, hdb, hlast⟩ := hsave.saveEdited (t := .groups)
    (mail_of_edited hu fun _ => ⟨rfl, rfl⟩) trivial (by simp [DbWrite.table]) (by simp) fun w₁ hw₁ => hw₁.storeDeleted
  exact no_row_of_delete hdb hlast hhas.mem.1 (beq_self_eq_true _)

/-! ### Clients -/

/-- The statements of saved clients and one about scopes are committed. -/
theorem commit_scopes {cs : List Client} (last : DbWrite) (hlast : last.Accepted)
    (hlastTable : last.table ≠ .users) (w : World) :
    ∃ db db₁, Exec sem (Rauthy.execute (cs.map Client.saveStmt ++ [last])) w (.ok ()) { w with db } ∧
      db₁ .scopes = w.db .scopes ∧ last.apply db₁ = some db := by
  have haccepted : ∀ s ∈ cs.map Client.saveStmt ++ [last], s.Accepted := by
    intro s hs
    rcases List.mem_append.mp hs with hs | hs
    · obtain ⟨c, -, rfl⟩ := List.mem_map.mp hs
      exact trivial
    · rw [List.mem_singleton.mp hs]
      exact hlast
  have hothers : ∀ s ∈ cs.map Client.saveStmt, s.table ≠ .scopes := by
    intro s hs he
    obtain ⟨c, -, rfl⟩ := List.mem_map.mp hs
    cases he
  obtain ⟨db, hdb⟩ := applyAll_accepted haccepted w.db
  obtain ⟨db₁, h₁, happly⟩ := applyAll_last hothers hdb
  have husers : db .users = w.db .users := by
    refine applyAll_frame hdb fun s hs => ?_
    rcases List.mem_append.mp hs with hs | hs
    · obtain ⟨c, -, rfl⟩ := List.mem_map.mp hs
      exact fun h => by cases h
    · rw [List.mem_singleton.mp hs]
      exact hlastTable
  exact ⟨db, db₁, exec_execute.mpr ⟨db, .of_emails hdb (by rw [husers]), rfl⟩, h₁, happly⟩

theorem Edit.harmless_of_deleteScope (h : FailsClean w (Scope.delete data id) w) :
    (Edit.deleteScope id).Harmless w := by
  intro scope hhas
  by_contra hname
  have hall : Exec sem Client.findAll w (.ok ((w.db .clients).filter fun _ => true)) w :=
    exec_select.mpr ⟨rfl, rfl⟩
  have hdrop := ((h.run (exec_fetchOne.mpr ⟨hhas, rfl⟩)).run (b := ())
    (exec_throwIf_ok.mpr ⟨hname, rfl⟩)).run hall
  let cs := (((w.db .clients).filter fun _ => true).filter (Scope.isIn scope.name)).map
    (·.deleteScope scope.name)
  obtain ⟨_, w₁, hlist, -, -⟩ := canAnswer_runIf (c := cs ≠ [])
    (canAnswer_cacheDel .c12hr "clients_") w
  have hsave := (hdrop.run hlist).run exec_begin_ok
  obtain ⟨ss, w₂, hsaves, -, -⟩ := Client.canAnswer_saveAll cs w₁
  obtain ⟨rfl, hframe⟩ := Client.saveAll_ok hsaves
  have hscopes : w₂.db .scopes = w.db .scopes :=
    (hframe.db .scopes (by simp)).trans (congrFun (db_of_drop hlist) _)
  obtain ⟨db, db₁, hcommit, h₁, hlast⟩ := commit_scopes (.delete .scopes fun r => r.id == id)
    trivial (by simp [DbWrite.table]) w₂
  have hrest := ((hsave.run hsaves).run exec_begin_ok).run hcommit
  have hrows : db = w.db := hrest.left.storeDeleted.rows
  subst hrows
  have hid : scope.id = id := hhas.mem.2
  exact no_row_of_delete (h₁.trans hscopes) hlast hhas.mem.1 (beq_iff_eq.mpr hid)

theorem Scope.canAnswer_saveRenamed (oldName newName : String) :
    CanAnswer (Scope.saveRenamed oldName newName) := by
  unfold Scope.saveRenamed
  split
  · exact canAnswer_ret []
  · refine canAnswer_bind (canAnswer_select _ _) fun _ => ?_
    exact canAnswer_bind (canAnswer_runIf (canAnswer_cacheDel _ _)) fun _ =>
      Client.canAnswer_saveAll _

theorem exec_cached_table :
    Exec sem (cached c k as wrap (select t fun _ => true)) w (.ok (w.db t))
      ((w.del c k).put c k (wrap (w.db t))) := by
  have hrows : Exec sem (select t fun _ => true) (w.del c k) (.ok (w.db t)) (w.del c k) :=
    exec_select.mpr ⟨(List.filter_true _).symm, rfl⟩
  exact exec_bind_ok.mpr ⟨none, _, exec_cacheGet.mpr (.inl ⟨rfl, .inl rfl⟩),
    exec_bind_ok.mpr ⟨_, _, hrows, exec_bind_ok.mpr ⟨(), _, exec_cachePut.mpr rfl, rfl, rfl⟩⟩⟩

theorem Edit.harmless_of_updateScope {req : ScopeRequest}
    (h : FailsClean w (Scope.update data id req) w) : (Edit.updateScope id req).Harmless w := by
  intro scope hhas
  by_cases hname : scope.name = "openid"
  · exact .inl hname
  by_cases hmapping : Scope.isCustom req.scope = false ∧
      (req.attrIncludeAccess.isSome = true ∨ req.attrIncludeId.isSome = true)
  · exact .inr (.inl hmapping)
  have hsave := (((h.run (exec_fetchOne.mpr ⟨hhas, rfl⟩)).run (b := ())
    (exec_throwIf_ok.mpr ⟨hname, rfl⟩)).run (b := ())
    (exec_throwIf_ok.mpr ⟨hmapping, rfl⟩)).run exec_begin_ok
  obtain ⟨ss, w₁, hsaves, -, -⟩ := Scope.canAnswer_saveRenamed scope.name req.scope w
  obtain ⟨hdb, rfl⟩ := Scope.saveRenamed_ok hsaves
  have hattrs := hsave.run hsaves
  have hfind : FailsClean w (cached .users "user_attrs_" CacheVal.userAttrs? .userAttrs
      (select .userAttrConfig fun _ => true)) w₁ := hattrs.left
  have hcached := (FailsClean.cached (t := .userAttrConfig) hfind).2
  obtain ⟨db, db₁, hcommit, h₁, hlast⟩ := commit_scopes
    (.update .scopes (fun r => r.id == scope.id) fun r =>
      { Scope.fromReq scope.id req (w₁.db .userAttrConfig) with id := r.id }) trivial
    (by simp [DbWrite.table])
    ((w₁.del .users "user_attrs_").put .users "user_attrs_" (.userAttrs (w₁.db .userAttrConfig)))
  have hrest := ((hattrs.run (exec_cached_table (t := .userAttrConfig))).run exec_begin_ok).run hcommit
  have hrows : db = w.db := hrest.storeUpdated.1.rows
  subst hrows
  have hscopes : db₁ .scopes = w.db .scopes := h₁.trans (congrFun hdb _)
  have hrow := row_of_update hscopes hlast hhas.mem.1 (beq_self_eq_true _)
  rw [hdb] at hcached hrow
  exact .inr (.inr ⟨hcached, hrow, hrest.storeUpdated.2 rfl⟩)

/-! ### Clients that registered themselves -/

/-- The letters and digits -/
def alnum (i : Fin 62) : Char :=
  Char.ofNat (if i.val < 10 then 48 + i.val else if i.val < 36 then 55 + i.val else 61 + i.val)

theorem isAlnum_alnum : ∀ i, isAlnum (alnum i) = true := by decide

theorem alnum_injective : Function.Injective alnum := by
  have hnat : ∀ i : Fin 62, (alnum i).toNat =
      if i.val < 10 then 48 + i.val else if i.val < 36 then 55 + i.val else 61 + i.val := by decide
  intro i j hij
  have h := congrArg Char.toNat hij
  rw [hnat, hnat] at h
  ext
  split_ifs at h <;> omega

/-- As long as not all texts of 16 characters have been drawn, a longer one can be drawn. -/
theorem exists_getRand {n : ℕ} (hn : 16 ≤ n) (hw : w.issued.length < 62 ^ 16) :
    ∃ s, Exec sem (getRand n : M ErrorResponse String) w (.ok s)
      { w with issued := s :: w.issued } := by
  let text (f : Fin n → Fin 62) : String := String.ofList (List.ofFn fun i => alnum (f i))
  have hinj : Function.Injective text := by
    intro f g hfg
    have hlist := List.ofFn_injective (String.ofList_injective hfg)
    exact funext fun i => alnum_injective (congrFun hlist i)
  have hnew : ∃ f, text f ∉ w.issued := by
    by_contra hall
    push Not at hall
    have hsub : Finset.univ.image text ⊆ w.issued.toFinset := by
      intro s hs
      obtain ⟨f, -, rfl⟩ := Finset.mem_image.mp hs
      exact List.mem_toFinset.mpr (hall f)
    have hcard := (Finset.card_le_card hsub).trans w.issued.toFinset_card_le
    rw [Finset.card_image_of_injective _ hinj, Finset.card_univ, Fintype.card_fun,
      Fintype.card_fin, Fintype.card_fin] at hcard
    have hpow : 62 ^ 16 ≤ 62 ^ n := Nat.pow_le_pow_right (by norm_num) hn
    omega
  obtain ⟨f, hf⟩ := hnew
  refine ⟨text f, exec_op.mpr ⟨_, rfl, sem_getRand.mpr ⟨hf, ?_, ?_, rfl⟩⟩⟩
  · rw [String.toList_ofList, List.length_ofFn]
  · rw [String.toList_ofList, List.all_eq_true]
    intro c hc
    obtain ⟨i, rfl⟩ := List.mem_ofFn.mp hc
    exact isAlnum_alnum _

theorem exists_newSecret (henc : ∀ b, ∃ c, data.encrypt b = .ok c)
    (hw : w.issued.length < 62 ^ 16) : ∃ r w', Exec sem (Client.generateNewSecret data) w (.ok r) w' ∧
      w'.db = w.db ∧ w'.cache = w.cache ∧ w'.issued.length = w.issued.length + 1 := by
  obtain ⟨s, hs⟩ := exists_getRand (n := 64) (by omega) hw
  obtain ⟨c, hc⟩ := henc (Text.asBytes s)
  exact ⟨(s, c), _, exec_bind_ok.mpr ⟨s, _, hs, exec_bind_ok.mpr ⟨c, _, exec_answer.mpr ⟨hc, rfl⟩,
    rfl, rfl⟩⟩, rfl, rfl, rfl⟩

theorem exists_tryFromDynReg (henc : ∀ b, ∃ c, data.encrypt b = .ok c)
    (hw : w.issued.length + 1 < 62 ^ 16) (req : DynamicClientRequest) :
    ∃ c w', Exec sem (Client.tryFromDynReg data req) w (.ok c) w' ∧
      w'.db = w.db ∧ w'.cache = w.cache ∧ w'.issued.length ≤ w.issued.length + 2 := by
  obtain ⟨s, hs⟩ := exists_getRand (n := 16) le_rfl (Nat.lt_of_succ_lt hw)
  have hsecret : ∀ (b : Bool) (w : World), w.issued.length < 62 ^ 16 →
      ∃ r w', Exec sem (Client.firstSecret data b) w (.ok r) w' ∧
        w'.db = w.db ∧ w'.cache = w.cache ∧ w'.issued.length ≤ w.issued.length + 1 := by
    intro b w hw
    unfold Client.firstSecret
    split
    · obtain ⟨r, w', hr, hdb, hcache, hissued⟩ := exists_newSecret henc hw
      exact ⟨_, w', exec_bind_ok.mpr ⟨r, w', hr, rfl, rfl⟩, hdb, hcache, hissued.le⟩
    · exact ⟨_, w, ⟨rfl, rfl⟩, rfl, rfl, Nat.le_succ _⟩
  obtain ⟨r, w', hr, hdb, hcache, hissued⟩ := hsecret
    (decide (req.tokenEndpointAuthMethod ≠ some "none")) { w with issued := s :: w.issued } hw
  refine ⟨_, w', exec_bind_ok.mpr ⟨s, _, hs, exec_bind_ok.mpr ⟨r, w', hr, rfl, rfl⟩⟩, hdb, hcache,
    hissued.trans ?_⟩
  show w.issued.length + 1 + 1 ≤ _
  rfl

/-- The entry of the dynamic client would have to hold every time at which it may be updated. -/
theorem FailsClean.updateDyn {dyn : ClientDyn} {method : String}
    (h : FailsClean w₀ (dyn.update data method) w) (henc : ∀ b, ∃ c, data.encrypt b = .ok c)
    (hw : w.issued.length < 62 ^ 16) : False := by
  have htoken : ∀ w : World, w.issued.length < 62 ^ 16 →
      ∃ b w', Exec sem (dyn.nextToken data) w (.ok b) w' := by
    intro w hw
    unfold ClientDyn.nextToken
    split
    · obtain ⟨r, w', hr, -⟩ := exists_newSecret henc hw
      exact ⟨_, w', exec_bind_ok.mpr ⟨r, w', hr, rfl, rfl⟩⟩
    · exact ⟨_, w, rfl, rfl⟩
  have hentry : ∀ ms, w.clock ≤ ms → ∃ d : ClientDyn, d.lastUsed = some (ms / 1000) ∧
      w₀.cache .c12hr (ClientDyn.getCacheEntry dyn.id) = some (.clientDyn d) := by
    intro ms hms
    have htime : Exec sem (unixTimestamp : M ErrorResponse Int) w (.ok (ms / 1000))
        { w with clock := ms } := exec_unixTimestamp.mpr ⟨ms, rfl, hms, rfl⟩
    obtain ⟨b, w', hb⟩ := htoken { w with clock := ms } hw
    exact ⟨_, rfl, (((h.run htime).run hb).run exec_begin_ok).left.put⟩
  obtain ⟨d, hd, hnow⟩ := hentry w.clock le_rfl
  obtain ⟨d', hd', hlater⟩ := hentry (w.clock + 1000) (by omega)
  rw [hnow] at hlater
  cases hlater
  rw [hd] at hd'
  have hsame : w.clock / 1000 = (w.clock + 1000) / 1000 := Option.some.inj hd'
  omega

theorem Edit.harmless_of_updateDynamic {req : DynamicClientRequest} {dyn : ClientDyn}
    (henc : ∀ b, ∃ c, data.encrypt b = .ok c) (hissued : w.issued.length + 2 < 62 ^ 16)
    (h : FailsClean w (Client.updateDynamic data req dyn) w) :
    (Edit.updateDynamic req dyn).Harmless w := by
  obtain ⟨new, w₁, hnew, hdb, hcache, hlength⟩ :=
    exists_tryFromDynReg henc (Nat.lt_of_succ_lt hissued) req
  have hfind := h.run hnew
  have hentry : ∀ c, w.cache .c12hr (Client.getCacheEntry dyn.id) = some (.client c) →
      c.isDynamic = false := by
    intro c hc
    by_contra hdyn
    have hhit : Exec sem (Client.find dyn.id) w₁ (.ok c) w₁ :=
      exec_bind_ok.mpr ⟨some c, w₁,
        exec_cacheGet.mpr (.inr ⟨c, .client c, rfl, by rw [hcache, hc], rfl, rfl⟩), rfl, rfl⟩
    have hsave := (hfind.run hhit).run (b := ()) (exec_throwIf_ok.mpr ⟨hdyn, rfl⟩)
    obtain ⟨s, w₂, hsaved, -, hissued₂⟩ := Client.canAnswer_saveTxn
      { new with
        id := c.id
        forceMfa := c.forceMfa
        scopes := c.scopes
        defaultScopes := c.defaultScopes } w₁
    refine (hsave.run hsaved).left.updateDyn henc ?_
    rw [hissued₂]
    exact hlength.trans_lt hissued
  refine ⟨hentry, fun c hc => ?_⟩
  have hmiss : Exec sem (cacheGet .c12hr (Client.getCacheEntry dyn.id) CacheVal.client?) w₁
      (.ok none) (w₁.del .c12hr (Client.getCacheEntry dyn.id)) :=
    exec_cacheGet.mpr (.inl ⟨rfl, .inl rfl⟩)
  have hrow : Exec sem (fetchOne .clients fun c => c.id == dyn.id)
      (w₁.del .c12hr (Client.getCacheEntry dyn.id)) (.ok c)
      (w₁.del .c12hr (Client.getCacheEntry dyn.id)) := by
    refine exec_fetchOne.mpr ⟨?_, rfl⟩
    rw [World.del_db, hdb]
    exact hc
  have hput := ((hfind.left.run hmiss).run hrow).left.put
  refine ⟨hput, hentry c ?_⟩
  have hid : c.id = dyn.id := beq_iff_eq.mp (List.mem_filter.mp (List.mem_of_head? hc)).2
  rw [← hid]
  exact hput

end FailsClean

/-! ### Nothing to change -/

/-- However the program ends, the state is as it was; what it returns is described by `F`. -/
abbrev Leaves {α : Type} (w : World) (p : M ErrorResponse α) (F : α → Prop) : Prop :=
  Hoare sem (fun w' => AsBefore w w' ∧ w.clock ≤ w'.clock) (fun _ => True) p fun a _ => F a

section Leaves

variable {α : Type} {w w₁ : World} {c : CacheName} {k : String} {t : Table}

theorem AsBefore.put {v : CacheVal} (h : AsBefore w w₁) (hv : w.cache c k = some v) :
    AsBefore w (w₁.put c k v) := by
  refine ⟨h.rows, fun c' k' v' hv' => ?_⟩
  rw [World.put_cache] at hv'
  split at hv'
  · next he =>
      cases hv'
      rw [he.1, he.2]
      exact hv
  · exact h.entries c' k' v' hv'

theorem AsBefore.del (h : AsBefore w w₁) (c : CacheName) (k : String) :
    AsBefore w (w₁.del c k) := by
  refine ⟨h.rows, fun c' k' v' hv' => ?_⟩
  rw [World.del_cache] at hv'
  split at hv'
  · cases hv'
  · exact h.entries c' k' v' hv'

theorem leaves_put {v : CacheVal} (hv : w.cache c k = some v) :
    Leaves w (cachePut c k v) fun _ => True :=
  hoare_cachePut fun _ hI _ => ⟨⟨hI.1.put hv, hI.2⟩, trivial⟩

theorem leaves_of_touches {p : M ErrorResponse α} (hp : Touches [] [] p) :
    Leaves w p fun _ => True := by
  intro w₁ r w₂ hI _ hx
  have hframe := hp.frame hx
  refine ⟨⟨⟨?_, fun c k v hv => ?_⟩, hI.2.trans (exec_clock hx)⟩, fun _ _ => trivial⟩
  · rw [← hI.1.rows]
    exact funext fun t => hframe.db t (by simp)
  · rcases hframe.cache c k v hv with h | h
    · exact hI.1.entries c k v h
    · cases h

theorem leaves_select (p : Row t → Bool) :
    Leaves w (select t p) fun rows => rows = (w.db t).filter p :=
  hoare_select fun w₁ hI _ => by rw [hI.1.rows]

theorem leaves_fetchOne (p : Row t → Bool) :
    Leaves w (fetchOne t p) fun r => ((w.db t).filter p).head? = some r := by
  refine hoare_seq (leaves_select p) fun rows hrows => ?_
  rw [hrows]
  exact hoare_okOr fun a _ _ _ ha => ha

theorem leaves_execute {ss : List DbWrite} (h : ∀ db, applyAll ss w.db = some db → db = w.db) :
    Leaves w (execute ss) fun _ => True := by
  refine hoare_execute fun w₁ db hI _ hdb => ?_
  rw [hI.1.rows] at hdb
  exact ⟨⟨⟨h db hdb, hI.1.entries⟩, hI.2⟩, trivial⟩

theorem leaves_begin : Leaves w (execute []) fun _ => True :=
  leaves_execute fun db hdb => by cases hdb; rfl

theorem leaves_time : Leaves w unixTimestamp fun now => w.clock / 1000 ≤ now := by
  intro w₁ r w₂ hI _ hx
  refine ⟨((leaves_of_touches touches_unixTimestamp) w₁ r w₂ hI trivial hx).1, ?_⟩
  rintro now rfl
  obtain ⟨ms, rfl, hms, -⟩ := exec_unixTimestamp.mp hx
  have hle := hI.2
  omega

theorem leaves_cached {as : CacheVal → Option (List (Row t))} {wrap : List (Row t) → CacheVal}
    (h : w.cache c k = some (wrap (w.db t))) (has : ∀ rows, as (wrap rows) = some rows) :
    Leaves w (cached c k as wrap (select t fun _ => true)) fun rows => rows = w.db t := by
  have hget : Leaves w (cacheGet c k as) fun x => ∀ rows, x = some rows → rows = w.db t := by
    refine hoare_cacheGet (fun w₁ hI _ => ⟨⟨hI.1.del c k, hI.2⟩, fun _ hn => by cases hn⟩)
      (fun _ _ _ _ _ hn => by cases hn) fun w₁ v rows hI _ hv hrows rows' he => ?_
    cases he
    have hentry := (hI.1.entries c k v hv).symm.trans h
    cases hentry
    rw [has] at hrows
    exact (Option.some.inj hrows).symm
  refine hoare_seq hget fun x hx => ?_
  rcases x with - | rows
  · refine hoare_seq (leaves_select _) fun rows hrows => ?_
    rw [List.filter_true] at hrows
    subst hrows
    exact hoare_seq (leaves_put h) fun _ _ => hoare_ret fun _ _ _ => rfl
  · exact hoare_ret fun _ _ _ => hx rows rfl

/-! ### Users as they are -/

theorem leaves_end {u : User} (hu : NothingToEnd w u) :
    Leaves w (do
      Session.invalidateForUser u.id
      RefreshToken.invalidateForUser u.id) fun _ => True := by
  have hsessions : Leaves w (Session.invalidateForUser u.id) fun _ => True := by
    refine hoare_seq leaves_time fun now _ => ?_
    have hall : Leaves w Session.findAll fun ss => ∀ s ∈ ss, s.userId ≠ some u.id := by
      refine hoare_seq (leaves_select _) fun rows hrows => ?_
      refine hoare_ret fun _ _ _ s hs => ?_
      rw [(List.perm_insertionSort _ _).mem_iff, hrows, List.filter_true] at hs
      exact hu.1 s hs
    refine hoare_seq hall fun ss hss => ?_
    rw [invalidateEach_of_none hss]
    exact hoare_ret fun _ _ _ => trivial
  refine hoare_seq hsessions fun _ _ => hoare_seq leaves_time fun now hnow => ?_
  refine leaves_execute fun db hdb => ?_
  obtain rfl := Option.some.inj hdb
  -- no token of the user is alive
  have hsame : (w.db .refreshTokens).map (fun r =>
      if (decide (r.exp > now) && r.userId == u.id) = true then { r with exp := now } else r) =
      w.db .refreshTokens := by
    refine (List.map_congr_left fun r hr => ?_).trans (List.map_id _)
    refine if_neg fun hlive => ?_
    rw [Bool.and_eq_true, decide_eq_true_eq, beq_iff_eq] at hlive
    have hend := hu.2 r hr hlive.2
    omega
  show Function.update w.db .refreshTokens _ = w.db
  rw [hsame, Function.update_eq_self]

theorem leaves_saveTxn {u : User} (hu : SavedAlready w u) :
    Leaves w u.saveTxn fun s => s = u.saveStmt := by
  refine hoare_seq leaves_begin fun _ _ => ?_
  have hcached : Leaves w (u.saveCached none) fun _ => True := by
    refine hoare_seq (F := fun _ => True) (hoare_runIf (fun hoff => leaves_end (hu.ended hoff))
      fun _ _ _ _ => trivial) fun _ _ => ?_
    refine hoare_seq (F := fun _ => True) (hoare_ret fun _ _ _ => trivial) fun _ _ => ?_
    exact hoare_seq (leaves_put hu.byId) fun _ _ => leaves_put hu.byEmail
  exact hoare_seq hcached fun _ _ => hoare_ret fun _ _ _ => rfl

theorem leaves_saveAll {us : List User} (hus : ∀ u ∈ us, SavedAlready w u) :
    Leaves w (User.saveAll us) fun ss => ss = us.map User.saveStmt := by
  induction us with
  | nil => exact hoare_ret fun _ _ _ => rfl
  | cons u us ih =>
      obtain ⟨hu, hus⟩ := List.forall_mem_cons.mp hus
      refine hoare_seq (leaves_saveTxn hu) fun s hs => ?_
      refine hoare_seq (ih hus) fun ss hss => ?_
      refine hoare_ret fun _ _ _ => ?_
      rw [hs, hss]
      rfl

/-- Users that are saved as they are, with a last statement that sets nothing. -/
theorem leaves_saveEdited {p : User → Bool} {last : DbWrite} {us : List User}
    (hu : UniqueKey User.id (w.db .users))
    (hus : us = ((w.db .users).insertionSort fun u v => u.createdAt ≤ v.createdAt).filter p)
    (hsaved : ∀ u ∈ w.db .users, p u = true → SavedAlready w u)
    (hlast : last.apply w.db = some w.db) : Leaves w (User.saveEdited us last) fun _ => True := by
  subst hus
  have hperm : ((w.db .users).insertionSort fun u v => u.createdAt ≤ v.createdAt).Perm
      (w.db .users) := List.perm_insertionSort _ _
  have hp : ∀ r, r ∈ ((w.db .users).insertionSort fun u v => u.createdAt ≤ v.createdAt).filter p ↔
      r ∈ w.db .users ∧ p r = true := by
    intro r
    rw [List.mem_filter, hperm.mem_iff]
  have hl := ((hperm.filter p).map User.id).nodup_iff.mpr (hu.sublist List.filter_sublist)
  refine hoare_seq (F := fun _ => True) (hoare_runIf (fun _ => leaves_of_touches
    (touches_cacheDel _ _)) fun _ _ _ _ => trivial) fun _ _ => ?_
  refine hoare_seq leaves_begin fun _ _ => ?_
  refine hoare_seq (leaves_saveAll fun u hm => hsaved u ((hp u).mp hm).1 ((hp u).mp hm).2)
    fun ss hss => ?_
  refine hoare_seq leaves_begin fun _ _ => leaves_execute fun db hdb => ?_
  rw [hss, ← List.map_id (List.filter _ _)] at hdb
  obtain ⟨db₁, husers, hother, hrest⟩ := User.sets_saveStmt.rows hu hl hp (fun _ => ⟨rfl, rfl⟩) hdb
  have hsame : db₁ = w.db := by
    funext t
    by_cases ht : t = .users
    · subst ht
      rw [husers]
      refine (List.map_congr_left fun r _ => ?_).trans (List.map_id _)
      split <;> rfl
    · exact hother t ht
  subst hsame
  rw [applyAll, hlast] at hrest
  exact (Option.some.inj hrest).symm

theorem leaves_findAllUsers : Leaves w User.findAll fun all =>
    all = (w.db .users).insertionSort fun u v => u.createdAt ≤ v.createdAt := by
  refine hoare_seq (leaves_select _) fun rows hrows => ?_
  rw [hrows, List.filter_true]
  exact hoare_ret fun _ _ _ => rfl

theorem apply_update_same {p : Row t → Bool} {f : Row t → Row t}
    (h : ∀ r ∈ w.db t, p r = true → f r = r) : (DbWrite.update t p f).apply w.db = some w.db := by
  have hsame : (w.db t).map (fun r => if p r = true then f r else r) = w.db t := by
    refine (List.map_congr_left fun r hr => ?_).trans (List.map_id _)
    split
    · next hp => exact h r hr hp
    · rfl
  show some (Function.update w.db t _) = some w.db
  rw [hsame, Function.update_eq_self]

theorem leaves_storeUpdated {L : Listing t} {id : String} {f : Row t → Row t}
    (hL : L.Cached w) (has : ∀ rows, L.unwrap (L.wrap rows) = some rows)
    (h : ∀ r ∈ w.db t, L.id r = id → f r = r) :
    Leaves w (L.storeUpdated id f) fun _ => True := by
  refine hoare_seq (leaves_cached hL has) fun rows hrows => ?_
  have hsame : rows.map (fun r => if L.id r = id then f r else r) = w.db t := by
    rw [hrows]
    refine (List.map_congr_left fun r hr => ?_).trans (List.map_id _)
    split
    · next hid => exact h r hr hid
    · rfl
  rw [hsame]
  exact leaves_put hL

end Leaves

section Edits

variable {data : AppState} {w : World} {id newName : String}

theorem leaves_find {t : Table} (L : Listing t) (id : String) : Leaves w (L.find id) (L.Has w id) :=
  leaves_fetchOne fun r => L.id r == id

theorem Edit.leaves_updateRole (hu : UniqueKey User.id (w.db .users))
    (hr : UniqueKey Role.id (w.db .roles)) (h : (Edit.updateRole id newName).Harmless w) :
    Leaves w (Role.update id newName) fun _ => True := by
  refine hoare_seq (leaves_find roleListing id) fun role hrole => ?_
  obtain ⟨rfl, hcached, husers⟩ := h role hrole
  have hrow : ∀ r ∈ w.db .roles, r.id = id → ({ r with name := role.name } : Role) = r := by
    intro r hm hid
    have hsame : r = role := hr.inj hm hrole.mem.1 (hid.trans hrole.mem.2.symm)
    rw [hsame]
  have hlast : (DbWrite.update .roles (fun r => r.id == id) fun r =>
      { r with name := role.name }).apply w.db = some w.db :=
    apply_update_same fun r hm hid => hrow r hm (beq_iff_eq.mp hid)
  have hid : role.id = id := hrole.mem.2
  refine hoare_seq leaves_findAllUsers fun all hall => ?_
  refine hoare_seq (leaves_saveEdited hu ?_ husers hlast) fun _ _ => ?_
  · rw [hall, funext (Role.renameIn_same role.name)]
    exact List.map_id' _
  refine hoare_seq (leaves_storeUpdated hcached (fun _ => rfl) fun r hm hr => ?_) fun _ _ =>
    hoare_ret fun _ _ _ => trivial
  exact hrow r hm (hr.trans hid)

theorem Edit.leaves_updateGroup (hu : UniqueKey User.id (w.db .users))
    (hg : UniqueKey Group.id (w.db .groups)) (h : (Edit.updateGroup id newName).Harmless w) :
    Leaves w (Group.update id newName) fun _ => True := by
  refine hoare_seq (leaves_find groupListing id) fun group hgroup => ?_
  obtain ⟨rfl, hcached, husers⟩ := h group hgroup
  have hrow : ∀ g ∈ w.db .groups, g.id = group.id → ({ g with name := group.name } : Group) = g := by
    intro g hm hid
    have hsame : g = group := hg.inj hm hgroup.mem.1 hid
    rw [hsame]
  have hlast : (DbWrite.update .groups (fun g => g.id == group.id) fun g =>
      { g with name := group.name }).apply w.db = some w.db :=
    apply_update_same fun g hm hid => hrow g hm (beq_iff_eq.mp hid)
  refine hoare_seq leaves_findAllUsers fun all hall => ?_
  refine hoare_seq (leaves_saveEdited hu ?_ husers hlast) fun _ _ => ?_
  · rw [hall, funext (Group.renameIn_same group.name)]
    exact List.map_id' _
  exact hoare_seq (leaves_storeUpdated hcached (fun _ => rfl) hrow) fun _ _ =>
    hoare_ret fun _ _ _ => trivial

theorem Edit.leaves_updateScope {req : ScopeRequest} (hs : UniqueKey Scope.id (w.db .scopes))
    (h : (Edit.updateScope id req).Harmless w) : Leaves w (Scope.update data id req) fun _ => True := by
  refine hoare_seq (leaves_find scopeListing id) fun scope hscope => ?_
  refine hoare_seq (F := fun _ => ¬ scope.name = "openid")
    (hoare_throwIf fun _ _ _ hname => hname) fun _ hname => ?_
  refine hoare_seq (F := fun _ => ¬ (Scope.isCustom req.scope = false ∧
      (req.attrIncludeAccess.isSome = true ∨ req.attrIncludeId.isSome = true)))
    (hoare_throwIf fun _ _ _ hmapping => hmapping) fun _ hmapping => ?_
  obtain ⟨hattrs, hreq, hcached⟩ :=
    ((h scope hscope).resolve_left hname).resolve_left hmapping
  have hsame : req.scope = scope.name := congrArg Scope.name hreq
  have hrow : ∀ s ∈ w.db .scopes, s.id = scope.id →
      ({ Scope.fromReq scope.id req (w.db .userAttrConfig) with id := s.id } : Scope) = s := by
    intro s hm hid
    rw [hreq, hs.inj hm hscope.mem.1 hid]
  refine hoare_seq leaves_begin fun _ _ => ?_
  have hsaved : Leaves w (Scope.saveRenamed scope.name req.scope) fun ss => ss = [] := by
    unfold Scope.saveRenamed
    rw [if_pos hsame.symm]
    exact hoare_ret fun _ _ _ => rfl
  refine hoare_seq hsaved fun ss hss => ?_
  have hfind : Leaves w UserAttrConfigEntity.findAll fun rows => rows = w.db .userAttrConfig :=
    leaves_cached (t := .userAttrConfig) hattrs fun _ => rfl
  refine hoare_seq hfind fun attrs ha => ?_
  subst hss ha
  refine hoare_seq leaves_begin fun _ _ => ?_
  refine hoare_seq (leaves_execute fun db hdb => ?_) fun _ _ => ?_
  · have hlast : (DbWrite.update .scopes (fun s => s.id == scope.id) fun s =>
        { Scope.fromReq scope.id req (w.db .userAttrConfig) with id := s.id }).apply w.db =
          some w.db := apply_update_same fun s hm hid => hrow s hm (beq_iff_eq.mp hid)
    obtain ⟨db₁, h₁, hret⟩ := Option.bind_eq_some_iff.mp hdb
    cases hret
    exact Option.some.inj (h₁.symm.trans hlast)
  refine hoare_seq (leaves_storeUpdated hcached (fun _ => rfl) fun s hm hid => ?_) fun _ _ => ?_
  · have hid : s.id = scope.id := hid
    rw [hreq]
    exact (hs.inj hm hscope.mem.1 hid).symm
  refine hoare_seq (F := fun _ => True) (hoare_runIf (fun hne => absurd hsame.symm hne)
    fun _ _ _ _ => trivial) fun _ _ => hoare_ret fun _ _ _ => trivial

theorem Edit.leaves_refused {α β : Type} {F : β → Prop} {find : M ErrorResponse β}
    {f : β → M ErrorResponse α} (hfind : Leaves w find F) (hF : ∀ b, F b → ∃ e, f b = .fail e) :
    Leaves w (find >>= f) fun _ => True := by
  refine hoare_seq hfind fun b hb => ?_
  obtain ⟨e, he⟩ := hF b hb
  rw [he]
  exact hoare_fail

theorem Edit.leaves_updateDynamic {req : DynamicClientRequest} {dyn : ClientDyn}
    (h : (Edit.updateDynamic req dyn).Harmless w) :
    Leaves w (Client.updateDynamic data req dyn) fun _ => True := by
  refine hoare_seq (leaves_of_touches (Client.tryFromDynReg_touches data req)) fun new _ => ?_
  have hget : Leaves w (cacheGet .c12hr (Client.getCacheEntry dyn.id) CacheVal.client?)
      fun x => ∀ c, x = some c → c.isDynamic = false := by
    refine hoare_cacheGet (fun w₁ hI _ => ⟨⟨hI.1.del _ _, hI.2⟩, fun _ hn => by cases hn⟩)
      (fun _ _ _ _ _ hn => by cases hn) fun w₁ v c hI _ hv hc c' he => ?_
    cases he
    rw [CacheVal.client?_eq_some] at hc
    subst hc
    exact h.1 _ (hI.1.entries _ _ _ hv)
  have hfind : Leaves w (Client.find dyn.id) fun c => c.isDynamic = false := by
    refine hoare_seq hget fun x hx => ?_
    rcases x with - | c
    · refine hoare_seq (leaves_fetchOne _) fun c hc => ?_
      obtain ⟨hentry, hdyn⟩ := h.2 c hc
      exact hoare_seq (leaves_put hentry) fun _ _ => hoare_ret fun _ _ _ => hdyn
    · exact hoare_ret fun _ _ _ => hx c rfl
  refine Edit.leaves_refused hfind fun c hc => ?_
  unfold throwIf
  rw [if_pos hc]
  exact ⟨_, rfl⟩

end Edits

/-- **Failed edits.**  An edit that fails, wherever it does, leaves the tables and the caches as they
were if and only if it is harmless. -/
theorem failed_edit_iff (data : AppState) (op : Edit) (w : World)
    (hu : UniqueKey User.id (w.db .users)) (hr : UniqueKey Role.id (w.db .roles))
    (hg : UniqueKey Group.id (w.db .groups)) (hs : UniqueKey Scope.id (w.db .scopes))
    (henc : ∀ b, ∃ c, data.encrypt b = .ok c) (hissued : w.issued.length + 2 < 62 ^ 16) :
    (∀ e w', Exec sem (op.prog data) w (.error (.err e)) w' → AsBefore w w') ↔ op.Harmless w := by
  have hstart : AsBefore w w ∧ w.clock ≤ w.clock := ⟨⟨rfl, fun _ _ _ h => h⟩, le_rfl⟩
  have hclean : ∀ {α : Type} {p : M ErrorResponse α}, Leaves w p (fun _ => True) →
      FailsClean w p w := fun hp e w' hx => (hp w _ w' hstart trivial hx).1.1
  constructor
  · intro h
    cases op with
    | updateRole id newName => exact Edit.harmless_of_updateRole hu (FailsClean.left h)
    | deleteRole id => exact Edit.harmless_of_deleteRole hu h
    | updateGroup id newName => exact Edit.harmless_of_updateGroup hu (FailsClean.left h)
    | deleteGroup id => exact Edit.harmless_of_deleteGroup hu h
    | updateScope id req => exact Edit.harmless_of_updateScope (FailsClean.left h)
    | deleteScope id => exact Edit.harmless_of_deleteScope h
    | updateDynamic req dyn =>
        exact Edit.harmless_of_updateDynamic henc hissued (FailsClean.left h)
  · intro h
    -- an answer that is dropped
    have hdrop : ∀ {α : Type} {p : M ErrorResponse α}, Leaves w p (fun _ => True) →
        Leaves w (do let _ ← p) fun _ => True := fun hp =>
      hoare_seq hp fun _ _ => hoare_ret fun _ _ _ => trivial
    cases op with
    | updateRole id newName => exact hclean (hdrop (Edit.leaves_updateRole hu hr h))
    | deleteRole id =>
        refine hclean (Edit.leaves_refused (leaves_find roleListing id) fun role hrole => ?_)
        unfold throwIf
        rw [if_pos (h role hrole)]
        exact ⟨_, rfl⟩
    | updateGroup id newName => exact hclean (hdrop (Edit.leaves_updateGroup hu hg h))
    | deleteGroup id =>
        exact hclean (Edit.leaves_refused (leaves_find groupListing id) fun group hgroup =>
          absurd hgroup (h group))
    | updateScope id req => exact hclean (hdrop (Edit.leaves_updateScope hs h))
    | deleteScope id =>
        refine hclean (Edit.leaves_refused (leaves_find scopeListing id) fun scope hscope => ?_)
        unfold throwIf
        rw [if_pos (h scope hscope)]
        exact ⟨_, rfl⟩
    | updateDynamic req dyn => exact hclean (hdrop (Edit.leaves_updateDynamic h))

/-- The role `rauthy_admin` is not deleted, and nothing else happens. -/
theorem failed_edit_iff_admin :
    (Edit.deleteRole "role").Harmless (roleWorld "rauthy_admin" "") ∧
      ∀ e w', Exec sem (Role.delete "role") (roleWorld "rauthy_admin" "") (.error (.err e)) w' →
        AsBefore (roleWorld "rauthy_admin" "") w' := by
  have hharmless : (Edit.deleteRole "role").Harmless (roleWorld "rauthy_admin" "") := by
    intro role hrole
    cases hrole
    rfl
  refine ⟨hharmless, (failed_edit_iff sampleState (.deleteRole "role") (roleWorld "rauthy_admin" "")
    (uniqueUsers_roleWorld _ _) (List.nodup_singleton _) List.nodup_nil List.nodup_nil
    (fun b => ⟨b, rfl⟩) ?_).mpr hharmless⟩
  show 0 + 2 < 62 ^ 16
  decide

/-- The commit fails, and the cached user has the new name of its role. -/
theorem failed_rename_cached :
    ¬ ∀ (data : AppState) (op : Edit) (w : World) (e : ErrorResponse) (w' : World),
      UniqueKey User.id (w.db .users) → UniqueKey Role.id (w.db .roles) →
      Exec sem (op.prog data) w (.error (.err e)) w' → AsBefore w w' := by
  intro hall
  obtain ⟨r, w', hx, hr⟩ := Pool.exists_exec_of_choices Op.run
    ((Edit.updateRole "role" "owner").prog sampleState)
    [.ok, .ok, .ok, .ok, .ok, .ok, .ok, .ok, .fail default false] (roleWorld "admin" "admin")
    (fun r w' => (errorOf r).isSome &&
      (w'.cache .users (User.cacheIdx "alice")).any fun v => v.user?.any (·.roles == "owner"))
    (by decide +kernel)
  rcases r with (e | m) | u
  · have hbefore := hall sampleState _ _ e w' (uniqueUsers_roleWorld _ _) (List.nodup_singleton _) hx
    rcases hv : w'.cache .users (User.cacheIdx "alice") with - | v
    · rw [hv] at hr
      cases hr
    · cases hbefore.entries _ _ v hv
  · cases hr
  · cases hr

end Rauthy
