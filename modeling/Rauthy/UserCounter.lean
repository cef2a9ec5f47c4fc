/-
Rauthy/UserCounter.lean

The number of users (`User::count`, `rauthy-models/src/entity/users.rs`) is cached for twelve
hours and decides whether the admin UI asks for pages.  A creation adds one to it and a deletion
takes one away, both after the row has been written.  If the entry is missing at that moment the
rows are counted first: the new row, or the missing one, is then counted twice.

Main result: `counter_exact`.  As long as every creation and deletion finds the entry, and is not
interrupted before it has changed it, the counter is the number of rows, whatever is evicted in
between.
-/
import Rauthy.UserCaches

namespace Rauthy

open Prog

/-! ### The calls -/

/-- The key of the counter, `USER_COUNT_IDX`. -/
def counterIdx : String := "users_count_total"

inductive CounterCall where
  | create (u : User) (postResetRedirectUri : Option String)
  | createFederated (u : User)
  | delete (u : User)
  | count

def CounterCall.run (data : AppState) : CounterCall → M ErrorResponse Unit
  | create u uri => do let _ ← User.create data u uri; return ()
  | createFederated u => do let _ ← User.createFederated u; return ()
  | delete u => u.delete
  | count => do let _ ← User.count; return ()

/-- One call after the other, whatever the stores answer; in between the counter may be evicted. -/
inductive CounterRun (data : AppState) (w₀ : World) : World → Prop where
  | start : CounterRun data w₀ w₀
  | call {w w' : World} {r : Except (Fault ErrorResponse) Unit} (c : CounterCall)
      (h : CounterRun data w₀ w) (hx : Exec sem (c.run data) w r w') : CounterRun data w₀ w'
  | evicted {w : World} (h : CounterRun data w₀ w) : CounterRun data w₀ (w.del .c12hr counterIdx)

/-- The counter is found by those who ask for it, the caches answer, and the database fails only
without having done anything. -/
def Op.Warm : (o : Op) → World → o.Res → World → Prop
  | .execute _, w, x, w' => x = .ok () ∨ w' = w
  | .cacheGet c k, _, x, _ => (∃ v, x = .ok v) ∧ (c = .c12hr → k = counterIdx → x ≠ .ok none)
  | .cachePut _ _ _, _, x, _ => x = .ok ()
  | .cacheDel _ _, _, x, _ => x = .ok ()
  | _, _, _, _ => True

def semWarm (o : Op) (w : World) (x : o.Res) (w' : World) : Prop := sem o w x w' ∧ o.Warm w x w'

/-- The condition on a call in the state that it starts in: the user that is deleted has a row, and
creations and deletions find the counter. -/
def CounterCall.Warm (data : AppState) (w : World) (r : Except (Fault ErrorResponse) Unit)
    (w' : World) : CounterCall → Prop
  | delete u => (∃ r ∈ w.db .users, r.id = u.id) ∧ Exec semWarm ((delete u).run data) w r w'
  | count => True
  | c => Exec semWarm (c.run data) w r w'

/-- A run whose calls meet the condition. -/
inductive WarmRun (data : AppState) (w₀ : World) : World → Prop where
  | start : WarmRun data w₀ w₀
  | call {w w' : World} {r : Except (Fault ErrorResponse) Unit} (c : CounterCall)
      (h : WarmRun data w₀ w) (hx : Exec sem (c.run data) w r w') (hwarm : c.Warm data w r w') :
      WarmRun data w₀ w'
  | evicted {w : World} (h : WarmRun data w₀ w) : WarmRun data w₀ (w.del .c12hr counterIdx)

/-! ### The invariant -/

/-- The entry is the number of rows if there is one, and no two rows have the same key. -/
structure CounterOk (w : World) : Prop where
  entry : ∀ v, w.cache .c12hr counterIdx = some v → v = .count (w.db .users).length
  ids : ((w.db .users).map User.id).Nodup

section

variable {data : AppState} {w w' : World}
  {Q : Except (Fault ErrorResponse) Unit → World → Prop}
  {cs : List (CacheName × Slot)}

theorem CounterOk.frame {ts : List Table} (h : CounterOk w) (hf : Frame ts cs w w')
    (ht : .users ∉ ts) (hc : ∀ s, (.c12hr, s) ∉ cs) : CounterOk w' := by
  have hrows := hf.db .users ht
  refine ⟨fun v hv => ?_, hrows ▸ h.ids⟩
  rcases hf.cache _ _ _ hv with hv | hv
  · rw [hrows]
    exact h.entry v hv
  · exact absurd hv (hc _)

theorem CounterOk.evict (h : CounterOk w) : CounterOk (w.del .c12hr counterIdx) := by
  refine ⟨fun v hv => ?_, h.ids⟩
  rw [World.del_cache, if_pos ⟨rfl, rfl⟩] at hv
  cases hv

theorem counterOk_put {n : Int} (hn : n = (w.db .users).length)
    (hids : ((w.db .users).map User.id).Nodup) :
    CounterOk (w.put .c12hr counterIdx (.count n)) := by
  refine ⟨fun v hv => ?_, hids⟩
  rw [World.put_cache, if_pos ⟨rfl, rfl⟩] at hv
  rw [World.put_db, ← hn]
  exact (Option.some.inj hv).symm

/-- Reading the counter keeps it, in every case: a missing entry is filled from the rows. -/
theorem CounterOk.count (h : CounterOk w) : Outcomes sem User.count w fun r w' =>
    CounterOk w' ∧ ∀ n, r = .ok n → n = (w'.db .users).length := by
  have hfail : ∀ {w' : World} (e : Fault ErrorResponse), CounterOk w' →
      CounterOk w' ∧ ∀ n : Int, Except.error e = .ok n → n = (w'.db .users).length :=
    fun e hw => ⟨hw, fun n hn => by cases hn⟩
  refine outcomes_cached (fun v a hv ha => ⟨h, fun n hn => ?_⟩) (fun e => hfail e h)
    fun w₁ hw₁ => ?_
  · rw [h.entry v hv] at ha
    obtain rfl := Except.ok.inj hn
    exact (Option.some.inj ha).symm
  have h₁ : CounterOk w₁ := by
    rcases hw₁ with rfl | rfl
    · exact h
    · exact h.evict
  refine outcomes_bind (outcomes_select (outcomes_ret ?_) fun e => hfail _ h₁)
  have hput : CounterOk (w₁.put .c12hr counterIdx (.count (w₁.db .users).length)) :=
    counterOk_put rfl h₁.ids
  rw [List.filter_true]
  exact ⟨fun e => hfail e h₁, fun e => hfail e hput, hput, fun n hn => (Except.ok.inj hn).symm⟩

/-! ### What a warm call does -/

theorem warm_execute {ss : List DbWrite} (hold : ∀ e, Q (.error e) w)
    (hnew : ∀ db, applyAll ss w.db = some db → Q (.ok ()) { w with db }) :
    Outcomes semWarm (execute ss) w Q := by
  refine outcomes_call fun x w₁ hx => ?_
  obtain ⟨hsem, hwarm⟩ := hx
  rcases x with e | u
  · rcases hwarm with he | rfl
    · cases he
    · exact outcomes_fail (hold _)
  · obtain ⟨db, hdb, rfl⟩ := sem_execute_ok.mp hsem
    exact outcomes_ret (hnew db hdb.applied)

theorem warm_cachePut {c : CacheName} {k : String} {v : CacheVal} (h : Q (.ok ()) (w.put c k v)) :
    Outcomes semWarm (cachePut c k v) w Q := by
  refine outcomes_call fun x w₁ hx => ?_
  obtain ⟨hsem, rfl⟩ := hx
  rcases sem_cachePut.mp hsem with ⟨-, rfl⟩ | ⟨e, he, -⟩
  · exact outcomes_ret h
  · cases he

theorem warm_cacheDel {c : CacheName} {k : String} (h : Q (.ok ()) (w.del c k)) :
    Outcomes semWarm (cacheDel c k) w Q := by
  refine outcomes_call fun x w₁ hx => ?_
  obtain ⟨hsem, rfl⟩ := hx
  rcases sem_cacheDel.mp hsem with ⟨-, rfl⟩ | ⟨e, he, -⟩
  · exact outcomes_ret h
  · cases he

/-- **The entry is changed by what is done to it**: it is there, and the rows are not counted. -/
theorem warm_counted {m : Int} (hm : ∀ v, w.cache .c12hr counterIdx = some v → v = .count m)
    (f : Int → Int) :
    Outcomes semWarm (do let count ← User.count; cachePut .c12hr counterIdx (.count (f count))) w
      fun _ w' => w' = w.put .c12hr counterIdx (.count (f m)) := by
  refine outcomes_bind (outcomes_bind (outcomes_bind (outcomes_call fun x w₁ hx => ?_)))
  obtain ⟨hsem, ⟨o, rfl⟩, hhit⟩ := hx
  rcases sem_cacheGet.mp hsem with ⟨ho, rfl⟩ | ⟨ho, -⟩ | ⟨e, he, -⟩
  · rcases hv : w₁.cache .c12hr counterIdx with - | v
    · rw [show "users_count_total" = counterIdx from rfl, hv] at ho
      exact absurd ho (hhit rfl rfl)
    · rw [show "users_count_total" = counterIdx from rfl, hv] at ho
      obtain rfl := Except.ok.inj ho
      rw [hm v hv]
      refine outcomes_ret (outcomes_ret (outcomes_ret ?_))
      exact warm_cachePut rfl
  · exact absurd ho (hhit rfl rfl)
  · cases he

theorem Outcomes.of_sem {α : Type} {p : M ErrorResponse α}
    {Q : Except (Fault ErrorResponse) α → World → Prop} (h : Outcomes sem p w Q) :
    Outcomes semWarm p w Q :=
  fun r w' hx => h r w' (hx.mono fun _ _ _ _ hs => hs.1)

theorem CounterOk.keeps {α : Type} {ts : List Table} {p : M ErrorResponse α} (h : CounterOk w)
    (hp : Touches ts cs p) (ht : .users ∉ ts) (hc : ∀ s, (.c12hr, s) ∉ cs) :
    Outcomes semWarm p w fun _ w' => CounterOk w' :=
  Outcomes.of_sem fun _ _ hx => h.frame (hp.frame hx) ht hc

theorem CounterOk.insert (h : CounterOk w) (u : User) :
    Outcomes semWarm (User.insert u) w fun _ w' => CounterOk w' := by
  refine outcomes_bind (warm_execute (fun e => h) fun db hdb => ?_)
  have hinsert : ∃ row : User, row.id = u.id ∧ db .users = w.db .users ++ [row] ∧
      ∀ r ∈ w.db .users, r.id ≠ u.id := by
    simp only [applyAll, DbWrite.apply] at hdb
    split at hdb
    · cases hdb
    · next hany =>
        cases hdb
        refine ⟨_, ?_, Function.update_self _ _ _, fun r hr hid => hany ?_⟩
        · rfl
        · exact List.any_eq_true.mpr ⟨r, hr, by simp [conflicts, sameKey, hid]⟩
  obtain ⟨row, hid, hrows, hnew⟩ := hinsert
  refine outcomes_bind (outcomes_mono (warm_counted (w := { w with db }) h.entry (· + 1))
    fun r w₁ hw₁ => ?_)
  have h₁ : CounterOk w₁ := by
    rw [hw₁]
    refine counterOk_put ?_ ?_
    · show _ = ((db .users).length : Int)
      rw [hrows, List.length_append]
      rfl
    · show ((db .users).map User.id).Nodup
      rw [hrows, List.map_append, List.nodup_append]
      refine ⟨h.ids, by simp, fun a ha b hb => ?_⟩
      obtain ⟨r, hr, rfl⟩ := List.mem_map.mp ha
      rw [List.map_singleton, List.mem_singleton, hid] at hb
      exact hb ▸ hnew r hr
  rcases r with e | u
  · exact h₁
  · exact outcomes_ret h₁

/-- The row of one key is taken out of rows with different keys. -/
theorem length_filter_id {rows : List User} (hids : (rows.map User.id).Nodup) {id : String}
    (hrow : ∃ r ∈ rows, r.id = id) :
    (rows.filter fun r => !(r.id == id)).length + 1 = rows.length := by
  have hone : (rows.filter fun r => r.id == id).length = 1 := by
    obtain ⟨r, hr, hid⟩ := hrow
    have hcount := List.count_eq_one_of_mem hids (List.mem_map.mpr ⟨r, hr, hid⟩)
    rwa [List.count, List.countP_map, List.countP_eq_length_filter] at hcount
  have hsplit := List.length_eq_length_filter_add (l := rows) fun r => r.id == id
  omega

theorem CounterOk.delete (h : CounterOk w) {u : User} (hrow : ∃ r ∈ w.db .users, r.id = u.id) :
    Outcomes semWarm u.delete w fun _ w' => CounterOk w' := by
  refine outcomes_bind fun r w₁ hx₁ => ?_
  have hf := (Session.deleteByUser_touches u.id).frame (hx₁.mono fun _ _ _ _ hs => hs.1)
  have h₁ := h.frame hf (by simp) (by simp)
  rw [← hf.db .users (by simp)] at hrow
  rcases r with e | ⟨⟩
  · exact h₁
  refine outcomes_bind (warm_execute (fun e => h₁) fun db hdb => ?_)
  have hrows : db .users = (w₁.db .users).filter fun r => !(r.id == u.id) := by
    simp only [User.deleteStmts, applyAll, DbWrite.apply, Option.bind_some, Option.some.injEq] at hdb
    subst hdb
    simp [Function.update]
  refine outcomes_bind (warm_cacheDel (outcomes_bind (warm_cacheDel ?_)))
  have hentry : ∀ v, (({ w₁ with db } : World).del .users (User.cacheIdx u.id)
      |>.del .users (User.cacheIdx u.email)).cache .c12hr counterIdx = some v →
      v = .count (w₁.db .users).length := by
    intro v hv
    rw [World.del_cache, if_neg (by simp), World.del_cache, if_neg (by simp)] at hv
    exact h₁.entry v hv
  refine outcomes_mono (warm_counted hentry (· - 1)) fun r w' hw' => ?_
  have hlength : (db .users).length + 1 = (w₁.db .users).length := by
    rw [hrows]
    exact length_filter_id h₁.ids hrow
  rw [hw']
  refine counterOk_put ?_ ?_
  · show _ = ((db .users).length : Int)
    omega
  · show ((db .users).map User.id).Nodup
    rw [hrows]
    exact h₁.ids.sublist (List.filter_sublist.map _)

/-- **A warm call keeps the counter right.** -/
theorem CounterCall.keeps (h : CounterOk w) {c : CounterCall}
    {r : Except (Fault ErrorResponse) Unit} (hx : Exec sem (c.run data) w r w')
    (hwarm : c.Warm data w r w') : CounterOk w' := by
  cases c with
  | create u uri =>
      refine outcomes_unit (J := CounterOk) ?_ r w' hwarm
      refine outcomes_bind (outcomes_mono (h.insert u) fun r w₁ h₁ => ?_)
      rcases r with e | slf
      · exact h₁
      refine outcomes_bind (outcomes_mono (h₁.keeps (MagicLink.create_touches _ _ _) (by simp)
        (by simp)) fun r w₂ h₂ => ?_)
      rcases r with e | l
      · exact h₂
      · exact outcomes_ret h₂
  | createFederated u => exact outcomes_unit (h.insert u) r w' hwarm
  | delete u => exact h.delete hwarm.1 r w' hwarm.2
  | count =>
      exact outcomes_unit (outcomes_mono h.count fun _ _ hw => hw.1) r w' hx

theorem WarmRun.counterOk {w₀ : World} (h₀ : CounterOk w₀) (h : WarmRun data w₀ w) :
    CounterOk w := by
  induction h with
  | start => exact h₀
  | call c _ hx hwarm ih => exact c.keeps ih hx hwarm
  | evicted _ ih => exact ih.evict

/-- **The counter is the number of rows** in every state that warm calls and evictions lead to. -/
theorem counter_exact {w₀ : World} (h₀ : CounterOk w₀) (hrun : WarmRun data w₀ w) {n : Int}
    (hx : Exec sem User.count w (.ok n) w') : n = (w.db .users).length := by
  have hcount := ((hrun.counterOk h₀).count _ _ hx).2 n rfl
  rwa [(User.count_touches.frame hx).db .users (by simp)] at hcount

end

/-! ### A cold counter -/

/-- No user yet, and nothing is cached. -/
def freshWorld : World where
  clock := 0
  issued := []
  db _ := []
  cache _ _ := none

theorem counterOk_freshWorld : CounterOk freshWorld :=
  ⟨fun _ hv => (by cases hv), List.nodup_nil⟩

theorem exec_createFederated_warm {w : World} {u : User} {m : Int} {db : Db}
    (hdb : Commits [.insert .users { u with
      password := none, passwordExpires := none, lastFailedLogin := none,
      failedLoginAttempts := none, webauthnUserId := none }] w.db db)
    (hentry : w.cache .c12hr counterIdx = some (.count m)) :
    ∃ w', Exec semWarm ((CounterCall.createFederated u).run sampleState) w (.ok ()) w' ∧
      w'.cache .c12hr counterIdx = some (.count (m + 1)) := by
  have hget : semWarm (.cacheGet .c12hr counterIdx) { w with db } (.ok (some (.count m)))
      { w with db } :=
    ⟨sem_cacheGet.mpr (.inl ⟨by rw [← hentry], rfl⟩), ⟨_, rfl⟩, fun _ _ h => (by cases h)⟩
  have hput : semWarm (.cachePut .c12hr counterIdx (.count (m + 1))) { w with db } (.ok ())
      (({ w with db } : World).put .c12hr counterIdx (.count (m + 1))) :=
    ⟨sem_cachePut.mpr (.inl ⟨rfl, rfl⟩), rfl⟩
  refine ⟨({ w with db } : World).put .c12hr counterIdx (.count (m + 1)), ?_, ?_⟩
  · exact ⟨.ok (), _, ⟨sem_execute_ok.mpr ⟨db, hdb, rfl⟩, .inl rfl⟩, _, _, hget, _, _, hput, rfl, rfl⟩
  · rw [World.put_cache, if_pos ⟨rfl, rfl⟩]

/-- After an administrator has looked at the users, one of them is added. -/
theorem counter_exact_first : ∃ w w', WarmRun sampleState freshWorld w ∧
    Exec sem User.count w (.ok 1) w' ∧ (1 : Int) = (w.db .users).length := by
  have hcount : Exec sem User.count freshWorld (.ok 0)
      ((freshWorld.del .c12hr counterIdx).put .c12hr counterIdx (.count 0)) :=
    exec_cached_load (exec_bind_ok.mpr ⟨[], _, exec_select.mpr ⟨rfl, rfl⟩, rfl, rfl⟩)
  have hseen : WarmRun sampleState freshWorld _ :=
    .call .count .start (exec_bind_ok.mpr ⟨0, _, hcount, rfl, rfl⟩) trivial
  obtain ⟨w, hcreate, hentry⟩ := exec_createFederated_warm (u := sampleUser) (m := 0)
    (w := (freshWorld.del .c12hr counterIdx).put .c12hr counterIdx (.count 0))
    ⟨rfl, fun _ => List.nodup_singleton _⟩ (by rw [World.put_cache, if_pos ⟨rfl, rfl⟩])
  have hrun := hseen.call (.createFederated sampleUser) (hcreate.mono fun _ _ _ _ hs => hs.1) hcreate
  have hx : Exec sem User.count w (.ok 1) w := exec_cached_hit hentry rfl
  exact ⟨w, w, hrun, hx, counter_exact counterOk_freshWorld hrun hx⟩

/-- The first user is counted twice. -/
theorem first_user_twice : ¬ ∀ (data : AppState) (w₀ w w' : World) (n : Int), CounterOk w₀ →
    CounterRun data w₀ w → Exec sem User.count w (.ok n) w' → n = (w.db .users).length := by
  intro hall
  obtain ⟨r, w, hx, hr⟩ := Pool.exists_exec_of_choices Op.run
    ((CounterCall.createFederated sampleUser).run sampleState) [.ok, .miss, .ok, .ok, .ok] freshWorld
    (fun _ w => (w.cache .c12hr counterIdx).bind CacheVal.count? == some 2 &&
      (w.db .users).length == 1) (by decide +kernel)
  rw [Bool.and_eq_true, beq_iff_eq, beq_iff_eq] at hr
  obtain ⟨v, hv, hcount⟩ := Option.bind_eq_some_iff.mp hr.1
  have h := hall sampleState freshWorld w w 2 counterOk_freshWorld (.call _ .start hx)
    (exec_cached_hit hv hcount)
  rw [hr.2] at h
  cases h

end Rauthy
