/-
Rauthy/Revocation.lean

What ends the access of a user: the mass invalidations of sessions and of refresh
tokens, and the four places that call them (a user who is disabled, an admin who
deletes sessions, the scheduler for expired users, and the logout).

A mass invalidation sets the expiry of the rows it hits to the current second and
removes their keys from the cache.  A session is still valid in the second it expires
in, and a cached copy whose row is not hit stays; `invalidated_iff` says exactly when a
mass invalidation has ended every session.  No place touches the refresh tokens of
devices, and the logout ends nothing but its own row; `revoked_iff` says when the
access has ended nevertheless.
-/
import Rauthy.Users

namespace Rauthy

open Prog

/-! ### Sessions in the stores -/

namespace Session

/-- The ids are the primary key. -/
def Unique (w : World) : Prop := ((w.db .sessions).map Session.id).Nodup

instance (w : World) : Decidable (Unique w) :=
  inferInstanceAs (Decidable ((w.db .sessions).map Session.id).Nodup)

/-- What `Session::find` can return: a row or a cached copy. -/
def Stored (w : World) (s : Session) : Prop :=
  s ∈ w.db .sessions ∨ ∃ k, w.cache .sessions k = some (.session s)

/-- The session is not accepted in the second `now`, from whatever address. -/
def DeadAt (s : Session) (now timeout : Int) : Prop :=
  ∀ ip, s.isValidAt now timeout ip = false

instance (s : Session) (now timeout : Int) : Decidable (s.DeadAt now timeout) :=
  decidable_of_iff (s.isValidAt now timeout none = false) (by
    constructor
    · intro h ip
      unfold isValidAt at h ⊢
      split at h
      · next h₁ => rw [if_pos h₁]
      · next h₁ =>
          rw [if_neg h₁]
          split at h
          · next h₂ => rw [if_pos h₂]
          · next h₂ =>
              rw [if_neg h₂]
              split at h
              · next h₃ => rw [if_pos h₃]
              · cases h
    · exact fun h => h none)

theorem deadAt_iff {s : Session} {now timeout : Int} :
    s.DeadAt now timeout ↔ s.exp < now ∨ s.lastSeen < now - timeout ∨ s.state = .unknown := by
  constructor
  · intro h
    have h := h none
    unfold isValidAt at h
    split at h
    · next h₁ => exact .inl h₁
    · split at h
      · next h₂ => exact .inr (.inl h₂)
      · split at h
        · next h₃ => exact .inr (.inr h₃)
        · cases h
  · intro h ip
    unfold isValidAt
    rcases h with h | h | h
    · rw [if_pos h]
    · rw [if_pos h, ite_self]
    · rw [if_pos h, ite_self, ite_self]

/-- A session that is not accepted is not accepted later. -/
theorem DeadAt.mono {s : Session} {now t timeout : Int} (h : s.DeadAt now timeout) (ht : now ≤ t) :
    s.DeadAt t timeout := by
  rw [deadAt_iff] at h ⊢
  rcases h with h | h | h
  · exact .inl (by omega)
  · exact .inr (.inl (by omega))
  · exact .inr (.inr h)

end Session

/-! ### Mass invalidations -/

/-- The world after `Session::save`. -/
def World.saved (w : World) (s : Session) : World :=
  let rows := (w.db .sessions).filter (fun r => !sameKey .sessions s r) ++ [s]
  World.put { w with db := Function.update w.db .sessions rows } .sessions
    (Session.cacheIdx s.id) (.session s)

/-- The world after these sessions have been saved with the expiry `now`. -/
def World.expired (now : Int) (hits : List Session) (w : World) : World :=
  hits.foldl (fun w s => w.saved { s with exp := now }) w

/-- The world after the keys of these sessions have been removed from the cache. -/
def World.uncached (ids : List String) (w : World) : World :=
  ids.foldl (fun w id => w.del .sessions (Session.cacheIdx id)) w

namespace World

variable {w : World} {now : Int}

@[simp] theorem saved_clock (w : World) (s : Session) : (w.saved s).clock = w.clock := rfl

theorem saved_db (w : World) (s : Session) {t : Table} (ht : t ≠ .sessions) :
    (w.saved s).db t = w.db t := by
  show Function.update w.db .sessions _ t = w.db t
  rw [Function.update_of_ne ht]

theorem mem_saved {s r : Session} :
    r ∈ (w.saved s).db .sessions ↔ (r ∈ w.db .sessions ∧ s.id ≠ r.id) ∨ r = s := by
  have hdb : (w.saved s).db .sessions =
      (w.db .sessions).filter (fun r => !sameKey .sessions s r) ++ [s] := by
    unfold World.saved
    exact Function.update_self Table.sessions _ w.db
  rw [hdb, List.mem_append, List.mem_filter, List.mem_singleton]
  simp [sameKey]

theorem expired_clock (hits : List Session) (w : World) : (w.expired now hits).clock = w.clock := by
  induction hits generalizing w with
  | nil => rfl
  | cons s hits ih => exact ih (w.saved { s with exp := now })

theorem expired_db (hits : List Session) (w : World) {t : Table} (ht : t ≠ .sessions) :
    (w.expired now hits).db t = w.db t := by
  induction hits generalizing w with
  | nil => rfl
  | cons s hits ih => exact (ih (w.saved { s with exp := now })).trans (saved_db _ _ ht)

/-- The rows after the sessions with these ids have been saved. -/
theorem mem_expired {hits : List Session} (hn : (hits.map Session.id).Nodup) {r : Session} :
    r ∈ (w.expired now hits).db .sessions ↔
      (r ∈ w.db .sessions ∧ ∀ s ∈ hits, s.id ≠ r.id) ∨
      ∃ s ∈ hits, r = { s with exp := now } := by
  induction hits generalizing w with
  | nil => simp [expired]
  | cons s hits ih =>
      rw [List.map_cons, List.nodup_cons] at hn
      show r ∈ (World.expired now hits (w.saved { s with exp := now })).db .sessions ↔ _
      rw [ih hn.2, mem_saved]
      constructor
      · rintro (⟨⟨hr, hne⟩ | rfl, hall⟩ | ⟨s', hs', rfl⟩)
        · exact .inl ⟨hr, List.forall_mem_cons.mpr ⟨hne, hall⟩⟩
        · exact .inr ⟨s, by simp, rfl⟩
        · exact .inr ⟨s', by simp [hs'], rfl⟩
      · rintro (⟨hr, hall⟩ | ⟨s', hs', rfl⟩)
        · rw [List.forall_mem_cons] at hall
          exact .inl ⟨.inl ⟨hr, hall.1⟩, hall.2⟩
        · rcases List.mem_cons.mp hs' with rfl | hs'
          · refine .inl ⟨.inr rfl, fun s₁ hs₁ he => hn.1 ?_⟩
            rw [List.mem_map]
            exact ⟨s₁, hs₁, he⟩
          · exact .inr ⟨s', hs', rfl⟩

theorem uncached_clock (ids : List String) (w : World) : (w.uncached ids).clock = w.clock := by
  induction ids generalizing w with
  | nil => rfl
  | cons id ids ih => exact ih (w.del _ _)

theorem uncached_db (ids : List String) (w : World) : (w.uncached ids).db = w.db := by
  induction ids generalizing w with
  | nil => rfl
  | cons id ids ih => exact ih (w.del _ _)

theorem uncached_cache (ids : List String) (w : World) (k : String) :
    (w.uncached ids).cache .sessions k =
      if k ∈ ids.map Session.cacheIdx then none else w.cache .sessions k := by
  induction ids generalizing w with
  | nil => simp [uncached]
  | cons id ids ih =>
      show (World.uncached ids (w.del _ _)).cache .sessions k = _
      rw [ih, del_cache, List.map_cons]
      by_cases h : k ∈ ids.map Session.cacheIdx
      · rw [if_pos h, if_pos (List.mem_cons_of_mem _ h)]
      · rw [if_neg h]
        simp [h]

theorem expired_cache (hits : List Session) (w : World) {k : String}
    (hk : k ∉ (hits.map Session.id).map Session.cacheIdx) :
    (w.expired now hits).cache .sessions k = w.cache .sessions k := by
  induction hits generalizing w with
  | nil => rfl
  | cons s hits ih =>
      rw [List.map_cons, List.map_cons, List.mem_cons, not_or] at hk
      refine (ih (w.saved { s with exp := now }) hk.2).trans ?_
      show (World.put _ _ _ _).cache .sessions k = _
      rw [put_cache, if_neg (fun h => hk.1 h.2)]

end World

/-- What a mass invalidation does that hits the rows with `hit`. -/
structure EndsSessions (hit : Session → Prop) (now : Int) (w w' : World) : Prop where
  rows : ∀ r, r ∈ w'.db .sessions ↔
    (r ∈ w.db .sessions ∧ ¬ hit r) ∨ ∃ s ∈ w.db .sessions, hit s ∧ r = { s with exp := now }
  copies : ∀ k v, w'.cache .sessions k = some v ↔
    w.cache .sessions k = some v ∧ ∀ s ∈ w.db .sessions, hit s → k ≠ Session.cacheIdx s.id
  others : ∀ t, t ≠ .sessions → w'.db t = w.db t

namespace Session

variable {w w' : World} {now : Int}

theorem answered_save {s : Session} :
    Outcomes semUp (save s) w fun r w' => r = .ok () ∧ w' = w.saved s := by
  refine outcomes_bind (answered_execute fun db hdb => ?_)
  simp only [applyAll, DbWrite.apply, Option.bind_some, Option.some.injEq] at hdb
  subst hdb
  exact answered_cachePut ⟨rfl, rfl⟩

theorem answered_findAll :
    Outcomes semUp findAll w fun r w' =>
      w' = w ∧ r = .ok ((w.db .sessions).insertionSort fun a b => b.exp ≤ a.exp) := by
  refine outcomes_bind (answered_select (outcomes_ret ⟨rfl, ?_⟩))
  rw [List.filter_eq_self.mpr fun _ _ => rfl]

theorem answered_uncache {α : Type} (f : α → String) (l : List α) :
    Outcomes semUp (forEach (fun a => cacheDel .sessions (cacheIdx (f a))) l : M ErrorResponse Unit)
      w fun r w' => r = .ok () ∧ w' = w.uncached (l.map f) := by
  induction l generalizing w with
  | nil => exact outcomes_ret ⟨rfl, rfl⟩
  | cons a l ih => exact outcomes_bind (answered_cacheDel ih)

theorem answered_invalidateEach (uid : String) (l : List Session) :
    Outcomes semUp (invalidateEach now uid l) w fun r w' =>
      r = .ok ((l.filter fun s => s.userId == some uid).map Session.id) ∧
      w' = w.expired now (l.filter fun s => s.userId == some uid) := by
  induction l generalizing w with
  | nil => exact outcomes_ret ⟨rfl, rfl⟩
  | cons s l ih =>
      unfold invalidateEach
      split
      · next hs =>
          rw [List.filter_cons_of_pos (by simp [hs])]
          refine outcomes_bind (outcomes_mono answered_save fun r w₁ hr => ?_)
          obtain ⟨rfl, rfl⟩ := hr
          refine outcomes_bind (outcomes_mono ih fun r w₂ hr => ?_)
          obtain ⟨rfl, rfl⟩ := hr
          exact outcomes_ret ⟨rfl, rfl⟩
      · next hs =>
          rw [List.filter_cons_of_neg (by simp [hs])]
          exact ih

theorem answered_invalidateAllEach (l : List Session) :
    Outcomes semUp (invalidateAllEach now l) w fun r w' =>
      r = .ok ((l.filter fun s => decide (s.exp > now)).map Session.id) ∧
      w' = w.expired now (l.filter fun s => decide (s.exp > now)) := by
  induction l generalizing w with
  | nil => exact outcomes_ret ⟨rfl, rfl⟩
  | cons s l ih =>
      unfold invalidateAllEach
      split
      · next hs =>
          rw [List.filter_cons_of_pos (by simp [hs])]
          refine outcomes_bind (outcomes_bind (outcomes_tried ?_))
          refine outcomes_mono answered_save fun r w₁ hr => ?_
          obtain ⟨rfl, rfl⟩ := hr
          refine outcomes_ret (outcomes_bind (outcomes_mono ih fun r w₂ hr => ?_))
          obtain ⟨rfl, rfl⟩ := hr
          exact outcomes_ret ⟨rfl, rfl⟩
      · next hs =>
          rw [List.filter_cons_of_neg (by simp [hs])]
          exact ih

/-- The rows that are hit, in the order of the loop. -/
def hits (p : Session → Bool) (w : World) : List Session :=
  ((w.db .sessions).insertionSort fun a b => b.exp ≤ a.exp).filter p

theorem mem_hits {p : Session → Bool} {s : Session} :
    s ∈ hits p w ↔ s ∈ w.db .sessions ∧ p s = true := by
  rw [hits, List.mem_filter, List.mem_insertionSort]

theorem nodup_hits (hu : Unique w) (p : Session → Bool) : ((hits p w).map Session.id).Nodup := by
  refine List.Nodup.sublist (List.filter_sublist.map _) ?_
  exact ((List.perm_insertionSort _ _).map _).nodup_iff.mpr hu

theorem ends_of_hits (hu : Unique w) (p : Session → Bool) (now : Int) :
    EndsSessions (fun s => p s = true) now w
      ((w.expired now (hits p w)).uncached ((hits p w).map Session.id)) where
  rows r := by
    rw [World.uncached_db, World.mem_expired (nodup_hits hu p)]
    constructor
    · rintro (⟨hr, hne⟩ | ⟨s, hs, rfl⟩)
      · exact .inl ⟨hr, fun hp => hne r (mem_hits.mpr ⟨hr, hp⟩) rfl⟩
      · exact .inr ⟨s, (mem_hits.mp hs).1, (mem_hits.mp hs).2, rfl⟩
    · rintro (⟨hr, hp⟩ | ⟨s, hs, hp, rfl⟩)
      · refine .inl ⟨hr, fun s hs he => hp ?_⟩
        have hsr : s = r := List.inj_on_of_nodup_map hu (mem_hits.mp hs).1 hr he
        exact hsr ▸ (mem_hits.mp hs).2
      · exact .inr ⟨s, mem_hits.mpr ⟨hs, hp⟩, rfl⟩
  copies k v := by
    rw [World.uncached_cache]
    by_cases hk : k ∈ ((hits p w).map Session.id).map cacheIdx
    · rw [if_pos hk]
      simp only [List.mem_map] at hk
      obtain ⟨_, ⟨s, hs, rfl⟩, rfl⟩ := hk
      constructor
      · intro h
        cases h
      · exact fun h => absurd rfl (h.2 s (mem_hits.mp hs).1 (mem_hits.mp hs).2)
    · rw [if_neg hk, World.expired_cache _ _ hk]
      refine ⟨fun h => ⟨h, fun s hs hp he => hk ?_⟩, And.left⟩
      rw [he]
      exact List.mem_map_of_mem (List.mem_map_of_mem (mem_hits.mpr ⟨hs, hp⟩))
  others t ht := by rw [World.uncached_db, World.expired_db _ _ ht]

theorem answered_invalidateForUser (hu : Unique w) (uid : String) :
    Outcomes semUp (invalidateForUser uid) w fun r w' =>
      r = .ok () ∧ w.clock ≤ w'.clock ∧
        EndsSessions (fun s => s.userId = some uid) (w'.clock / 1000) w w' := by
  refine outcomes_bind (answered_unixTimestamp fun ms hms => ?_)
  refine outcomes_bind (outcomes_mono answered_findAll fun r w₁ hr => ?_)
  obtain ⟨rfl, rfl⟩ := hr
  refine outcomes_bind (outcomes_mono (answered_invalidateEach uid _) fun r w₂ hr => ?_)
  obtain ⟨rfl, rfl⟩ := hr
  refine outcomes_mono (answered_uncache (fun id => id) _) fun r w₃ hr => ?_
  rw [List.map_id'] at hr
  obtain ⟨rfl, rfl⟩ := hr
  rw [World.uncached_clock, World.expired_clock]
  refine ⟨rfl, hms, ?_⟩
  have h := ends_of_hits (w := { w with clock := ms }) hu (fun s => s.userId == some uid) (ms / 1000)
  simp only [beq_iff_eq] at h
  exact ⟨h.rows, h.copies, h.others⟩

theorem answered_invalidateAll (hu : Unique w) :
    Outcomes semUp invalidateAll w fun r w' =>
      r = .ok () ∧ w.clock ≤ w'.clock ∧
        EndsSessions (fun s => s.exp > w'.clock / 1000) (w'.clock / 1000) w w' := by
  refine outcomes_bind (answered_unixTimestamp fun ms hms => ?_)
  refine outcomes_bind (outcomes_mono answered_findAll fun r w₁ hr => ?_)
  obtain ⟨rfl, rfl⟩ := hr
  refine outcomes_bind (outcomes_mono (answered_invalidateAllEach _) fun r w₂ hr => ?_)
  obtain ⟨rfl, rfl⟩ := hr
  refine outcomes_mono (answered_uncache (fun id => id) _) fun r w₃ hr => ?_
  rw [List.map_id'] at hr
  obtain ⟨rfl, rfl⟩ := hr
  rw [World.uncached_clock, World.expired_clock]
  refine ⟨rfl, hms, ?_⟩
  have h := ends_of_hits (w := { w with clock := ms }) hu (fun s => decide (s.exp > ms / 1000))
    (ms / 1000)
  simp only [decide_eq_true_eq] at h
  exact ⟨h.rows, h.copies, h.others⟩

theorem strict_save (s : Session) : Strict Op.Answered (save s) :=
  strict_bind (strict_execute _) fun _ => strict_cachePut _ _ _

theorem strict_invalidateEach (now : Int) (uid : String) (l : List Session) :
    Strict Op.Answered (invalidateEach now uid l) := by
  induction l with
  | nil => trivial
  | cons s l ih =>
      unfold invalidateEach
      split
      · exact strict_bind (strict_save _) fun _ => strict_bind ih fun _ => trivial
      · exact ih

theorem strict_invalidateForUser (uid : String) : Strict Op.Answered (invalidateForUser uid) := by
  refine strict_bind strict_unixTimestamp fun now => ?_
  refine strict_bind (strict_bind (strict_select _ _) fun _ => trivial) fun l => ?_
  refine strict_bind (strict_invalidateEach _ _ _) fun removed => ?_
  exact strict_forEach fun id _ => strict_cacheDel _ _

end Session

/-! ### Are the sessions ended? -/

/-- No session of `aff` is accepted from `now` on, and no expiry is later than before. -/
structure Invalidated (aff : Session → Prop) (now timeout : Int) (w w' : World) : Prop where
  dead : ∀ s, Session.Stored w' s → aff s → ∀ t, now ≤ t → s.DeadAt t timeout
  exp_le : ∀ r ∈ w'.db .sessions, ∃ s ∈ w.db .sessions, s.id = r.id ∧ r.exp ≤ s.exp

/-- When a mass invalidation that hits `hit` ends all of `aff`: whatever it hits has not
expired, but is not accepted in this second for another reason; and whatever it does not hit,
a row or a cached copy, is not accepted either. -/
structure CanEnd (hit aff : Session → Prop) (now timeout : Int) (w : World) : Prop where
  hit_dead : ∀ s ∈ w.db .sessions, hit s → aff s → { s with exp := now }.DeadAt now timeout
  hit_exp : ∀ s ∈ w.db .sessions, hit s → now ≤ s.exp
  rest_dead : ∀ s ∈ w.db .sessions, ¬ hit s → aff s → s.DeadAt now timeout
  copies_dead : ∀ k s, w.cache .sessions k = some (.session s) →
    (∀ r ∈ w.db .sessions, hit r → k ≠ Session.cacheIdx r.id) → aff s → s.DeadAt now timeout

/-- **Mass invalidations**, the expiry of a session being no part of `aff`. -/
theorem EndsSessions.invalidated {hit aff : Session → Prop} {now timeout : Int} {w w' : World}
    (hu : Session.Unique w) (h : EndsSessions hit now w w')
    (haff : ∀ s e, aff { s with exp := e } ↔ aff s) :
    Invalidated aff now timeout w w' ↔ CanEnd hit aff now timeout w := by
  constructor
  · intro hi
    refine ⟨fun s hs hh ha => ?_, fun s hs hh => ?_, fun s hs hh ha => ?_, fun k s hk hr ha => ?_⟩
    · have hin := (h.rows { s with exp := now }).mpr (.inr ⟨s, hs, hh, rfl⟩)
      exact hi.dead _ (.inl hin) ((haff s now).mpr ha) now (Int.le_refl _)
    · have hin := (h.rows { s with exp := now }).mpr (.inr ⟨s, hs, hh, rfl⟩)
      obtain ⟨s', hs', hid, hle⟩ := hi.exp_le _ hin
      have hss : s' = s := List.inj_on_of_nodup_map hu hs' hs hid
      rw [hss] at hle
      exact hle
    · exact hi.dead s (.inl ((h.rows s).mpr (.inl ⟨hs, hh⟩))) ha now (Int.le_refl _)
    · exact hi.dead s (.inr ⟨k, (h.copies k _).mpr ⟨hk, hr⟩⟩) ha now (Int.le_refl _)
  · intro hc
    refine ⟨fun s hs ha t ht => ?_, fun r hr => ?_⟩
    · refine Session.DeadAt.mono ?_ ht
      rcases hs with hs | ⟨k, hk⟩
      · rcases (h.rows s).mp hs with ⟨hs, hh⟩ | ⟨s', hs', hh, rfl⟩
        · exact hc.rest_dead s hs hh ha
        · exact hc.hit_dead s' hs' hh ((haff s' now).mp ha)
      · obtain ⟨hk, hr⟩ := (h.copies k _).mp hk
        exact hc.copies_dead k s hk hr ha
    · rcases (h.rows r).mp hr with ⟨hr, hh⟩ | ⟨s, hs, hh, rfl⟩
      · exact ⟨r, hr, rfl, Int.le_refl _⟩
      · exact ⟨s, hs, rfl, hc.hit_exp s hs hh⟩

/-- **When the mass invalidations end every session**: the sessions of a user after
`invalidate_for_user`, and all of them after `invalidate_all` has been answered by the
stores, whose errors it only logs. -/
theorem invalidated_iff {w w' : World} (hu : Session.Unique w) (uid : String) (timeout : Int) :
    (Exec sem (Session.invalidateForUser uid) w (.ok ()) w' →
      (Invalidated (fun s => s.userId = some uid) (w'.clock / 1000) timeout w w' ↔
        CanEnd (fun s => s.userId = some uid) (fun s => s.userId = some uid) (w'.clock / 1000)
          timeout w)) ∧
    (Exec semUp Session.invalidateAll w (.ok ()) w' →
      (Invalidated (fun _ => True) (w'.clock / 1000) timeout w w' ↔
        CanEnd (fun s => s.exp > w'.clock / 1000) (fun _ => True) (w'.clock / 1000)
          timeout w)) := by
  constructor
  · intro hx
    have hx := hx.answering (Session.strict_invalidateForUser uid)
    have h := (Session.answered_invalidateForUser hu uid _ _ hx).2.2
    exact h.invalidated hu fun _ _ => Iff.rfl
  · intro hx
    have h := (Session.answered_invalidateAll hu _ _ hx).2.2
    exact h.invalidated hu fun _ _ => Iff.rfl

/-! One session, in the second 100 -/

/-- A session of alice. -/
def aliceSessionAt (exp lastSeen : Int) : Session where
  id := "session"
  csrfToken := "csrf"
  userId := some "alice"
  roles := none
  groups := none
  isMfa := false
  state := .auth
  exp := exp
  lastSeen := lastSeen
  remoteIp := none

/-- The stores with these rows and cached copies of sessions. -/
def sessionWorld (rows : List Session) (copy : Option Session) : World where
  clock := 100000
  issued := []
  db
    | .sessions => rows
    | _ => []
  cache c k := if c = .sessions ∧ k = "session_session" then copy.map .session else none

/-- An idle session is ended. -/
theorem invalidated_iff_idle :
    ∃ w', Exec sem (Session.invalidateForUser "alice") (sessionWorld [aliceSessionAt 200 0] none)
        (.ok ()) w' ∧
      Invalidated (fun s => s.userId = some "alice") (w'.clock / 1000) 60
        (sessionWorld [aliceSessionAt 200 0] none) w' := by
  obtain ⟨r, w', hx, hr⟩ := Pool.exists_exec_of_choices Op.run (Session.invalidateForUser "alice")
    [.time 100000, .ok, .ok, .ok, .ok] (sessionWorld [aliceSessionAt 200 0] none)
    (fun r w' => r.isOk && decide (w'.clock / 1000 = 100)) (by decide +kernel)
  rcases r with e | ⟨⟩
  · cases hr
  have hclock : w'.clock / 1000 = 100 := of_decide_eq_true hr
  refine ⟨w', hx, ((invalidated_iff (w := sessionWorld [aliceSessionAt 200 0] none) (by decide)
    "alice" 60).1 hx).mpr ?_⟩
  rw [hclock]
  refine ⟨fun s hs _ _ => ?_, fun s hs _ => ?_, fun s hs hh ha => absurd ha hh, fun k s hk => ?_⟩
  · have hs : s ∈ [aliceSessionAt 200 0] := hs
    rw [List.mem_singleton.mp hs]
    decide
  · have hs : s ∈ [aliceSessionAt 200 0] := hs
    rw [List.mem_singleton.mp hs]
    decide
  · unfold sessionWorld at hk
    simp at hk

/-- An expired session is accepted again after its invalidation, until the second is over. -/
theorem invalidation_revives :
    ¬ ∀ w w' uid timeout, Session.Unique w →
      Exec sem (Session.invalidateForUser uid) w (.ok ()) w' →
      Invalidated (fun s => s.userId = some uid) (w'.clock / 1000) timeout w w' := by
  intro h
  obtain ⟨r, w', hx, hr⟩ := Pool.exists_exec_of_choices Op.run (Session.invalidateForUser "alice")
    [.time 100000, .ok, .ok, .ok, .ok] (sessionWorld [aliceSessionAt 50 90] none)
    (fun r w' => r.isOk && decide (aliceSessionAt 100 90 ∈ w'.db .sessions)) (by decide +kernel)
  rcases r with e | ⟨⟩
  · cases hr
  have hin : aliceSessionAt 100 90 ∈ w'.db .sessions := of_decide_eq_true hr
  obtain ⟨s, hs, -, hle⟩ := (h _ w' "alice" 60 (by decide) hx).exp_le _ hin
  have hs : s ∈ [aliceSessionAt 50 90] := hs
  rw [List.mem_singleton.mp hs] at hle
  exact absurd hle (by decide)

/-! ### Where access is revoked -/

/-- `DELETE /sessions`, after the check of the principal. -/
def deleteSessions : M ErrorResponse Unit := do
  Session.invalidateAll
  RefreshToken.invalidateAll

/-- `DELETE /sessions/{user_id}`, after the check of the principal. -/
def deleteSessionsForUser (uid : String) : M ErrorResponse Unit := do
  Session.invalidateForUser uid
  RefreshToken.invalidateForUser uid

/-- The users who expired long enough ago are deleted. -/
def cleanupExpired (cleanupAfterSecs : Option ℕ) (now ts : Int) (user : User) :
    M ErrorResponse Unit :=
  match cleanupAfterSecs with
  | none => return ()
  | some secs => runIf ((ts - now).natAbs > secs) (ignoreErr user.delete)

/-- The body of the loop of `user_expiry_checker`. -/
def handleExpired (cleanupAfterSecs : Option ℕ) (now : Int) (user : User) :
    M ErrorResponse Unit :=
  match user.userExpires with
  | none => return ()
  | some ts =>
      if now < ts then return ()
      else do
        ignoreErr (Session.invalidateForUser user.id)
        ignoreErr (RefreshToken.invalidateForUser user.id)
        cleanupExpired cleanupAfterSecs now ts user

/-- `POST /oidc/logout`: the session is that of the principal. -/
def postLogout (session : Session) : M ErrorResponse Unit := do
  let _ ← session.invalidate
  return ()

/-- The places that revoke the access of users. -/
inductive Revocation where
  | disable (user : User) (oldEmail : Option String)
  | deleteSessions
  | deleteSessionsForUser (uid : String)
  | expired (cleanupAfterSecs : Option ℕ) (now ts : Int) (user : User) (h : ts ≤ now)
  | logout (session : Session)

namespace Revocation

def prog (data : AppState) : Revocation → M ErrorResponse Unit
  | disable u oldEmail => User.save data { u with enabled := false } oldEmail
  | deleteSessions => Rauthy.deleteSessions
  | deleteSessionsForUser uid => Rauthy.deleteSessionsForUser uid
  | expired cleanup now ts u _ => handleExpired cleanup now { u with userExpires := some ts }
  | logout s => postLogout s

/-- The users whose access is to end. -/
def affects : Revocation → String → Prop
  | disable u _ => fun uid => uid = u.id
  | deleteSessions => fun _ => True
  | deleteSessionsForUser uid' => fun uid => uid = uid'
  | expired _ _ _ u _ => fun uid => uid = u.id
  | logout s => fun uid => s.userId = some uid

/-- The rows of sessions that it ends. -/
def ends : Revocation → Session → Prop
  | disable u _ => fun s => s.userId = some u.id
  | deleteSessions => fun _ => True
  | deleteSessionsForUser uid => fun s => s.userId = some uid
  | expired _ _ _ u _ => fun s => s.userId = some u.id
  | logout s' => fun s => s.id = s'.id

/-- The rows whose key it removes from the cache of the sessions, in the second `t`. -/
def removes (t : Int) : Revocation → Session → Prop
  | disable u _ => fun s => s.userId = some u.id
  | deleteSessions => fun s => s.exp > t
  | deleteSessionsForUser uid => fun s => s.userId = some uid
  | expired _ _ _ u _ => fun s => s.userId = some u.id
  | logout _ => fun _ => False

/-- It ends the refresh tokens. -/
def endsTokens : Revocation → Prop
  | logout _ => False
  | _ => True

/-- It ends the refresh tokens of devices: only with the user. -/
def endsDevices : Revocation → Prop
  | expired (some secs) now ts _ _ => (ts - now).natAbs > secs
  | _ => False

end Revocation

/-- The session belongs to one of these users. -/
def Session.Of (aff : String → Prop) (s : Session) : Prop := ∃ uid, s.userId = some uid ∧ aff uid

/-- No session of these users is accepted at a later second, and none of their refresh tokens
is left that has not expired. -/
structure RevokedFor (aff : String → Prop) (timeout : Int) (w : World) : Prop where
  sessions : ∀ s, Session.Stored w s → s.Of aff → ∀ t, w.clock / 1000 < t → s.DeadAt t timeout
  tokens : ∀ r ∈ w.db .refreshTokens, aff r.userId → r.exp ≤ w.clock / 1000
  devices : ∀ r ∈ w.db .refreshTokensDevices, aff r.userId → r.exp ≤ w.clock / 1000

/-- When a revocation that reads the clock at `t` and ends at `now` leaves no access behind:
what it does not touch gives none. -/
structure Revocation.CanRevoke (r : Revocation) (t now timeout : Int) (w : World) : Prop where
  sessions : ∀ s ∈ w.db .sessions, s.Of r.affects → ¬ r.ends s → s.DeadAt (now + 1) timeout
  copies : ∀ k s, w.cache .sessions k = some (.session s) → s.Of r.affects →
    (∀ s' ∈ w.db .sessions, r.removes t s' → k ≠ Session.cacheIdx s'.id) →
    s.DeadAt (now + 1) timeout
  tokens : ¬ r.endsTokens → ∀ rt ∈ w.db .refreshTokens, r.affects rt.userId → rt.exp ≤ now
  devices : ¬ r.endsDevices →
    ∀ rt ∈ w.db .refreshTokensDevices, r.affects rt.userId → rt.exp ≤ now

/-- What a revocation does to the stores. -/
structure Revocation.Done (r : Revocation) (t : Int) (w w' : World) : Prop where
  time : w.clock / 1000 ≤ t ∧ t ≤ w'.clock / 1000
  rows : ∀ s ∈ w'.db .sessions, s.exp ≤ w'.clock / 1000 ∨ s ∈ w.db .sessions ∧ ¬ r.ends s
  rowsKept : ∀ s ∈ w.db .sessions, ¬ r.ends s → s ∈ w'.db .sessions
  copies : ∀ k v, w'.cache .sessions k = some v ↔ w.cache .sessions k = some v ∧
    ∀ s ∈ w.db .sessions, r.removes t s → k ≠ Session.cacheIdx s.id
  tokens : r.endsTokens → ∀ rt ∈ w'.db .refreshTokens, r.affects rt.userId →
    rt.exp ≤ w'.clock / 1000
  tokensKept : ¬ r.endsTokens → w'.db .refreshTokens = w.db .refreshTokens
  devices : r.endsDevices → ∀ rt ∈ w'.db .refreshTokensDevices, r.affects rt.userId →
    rt.exp ≤ w'.clock / 1000
  devicesKept : ¬ r.endsDevices → w'.db .refreshTokensDevices = w.db .refreshTokensDevices

theorem Revocation.Done.revoked {r : Revocation} {t timeout : Int} {w w' : World}
    (h : r.Done t w w') :
    RevokedFor r.affects timeout w' ↔ r.CanRevoke t (w'.clock / 1000) timeout w := by
  constructor
  · intro hr
    refine ⟨fun s hs ho he => ?_, fun k s hk ho hne => ?_, fun ht rt hrt => ?_, fun hd rt hrt => ?_⟩
    · exact hr.sessions s (.inl (h.rowsKept s hs he)) ho _ (by omega)
    · exact hr.sessions s (.inr ⟨k, (h.copies k _).mpr ⟨hk, hne⟩⟩) ho _ (by omega)
    · exact hr.tokens rt (h.tokensKept ht ▸ hrt)
    · exact hr.devices rt (h.devicesKept hd ▸ hrt)
  · intro hc
    refine ⟨fun s hs ho t' ht' => ?_, fun rt hrt ha => ?_, fun rt hrt ha => ?_⟩
    · have hle : w'.clock / 1000 + 1 ≤ t' := by omega
      refine Session.DeadAt.mono ?_ hle
      rcases hs with hs | ⟨k, hk⟩
      · rcases h.rows s hs with hexp | ⟨hs, he⟩
        · exact Session.deadAt_iff.mpr (.inl (by omega))
        · exact hc.sessions s hs ho he
      · obtain ⟨hk, hne⟩ := (h.copies k _).mp hk
        exact hc.copies k s hk ho hne
    · by_cases ht : r.endsTokens
      · exact h.tokens ht rt hrt ha
      · exact hc.tokens ht rt (h.tokensKept ht ▸ hrt) ha
    · by_cases hd : r.endsDevices
      · exact h.devices hd rt hrt ha
      · exact hc.devices hd rt (h.devicesKept hd ▸ hrt) ha

/-! ### What each of them does -/

section Done

variable {w w₁ w₂ w' : World}
  {r : Revocation}

/-- Sessions and refresh tokens are left alone. -/
structure Quiet (w w' : World) : Prop where
  sessions : w'.db .sessions = w.db .sessions
  tokens : w'.db .refreshTokens = w.db .refreshTokens
  devices : w'.db .refreshTokensDevices = w.db .refreshTokensDevices
  copies : w'.cache .sessions = w.cache .sessions
  clock : w.clock ≤ w'.clock

theorem Quiet.trans (h₁ : Quiet w w₁) (h₂ : Quiet w₁ w') : Quiet w w' where
  sessions := h₂.sessions.trans h₁.sessions
  tokens := h₂.tokens.trans h₁.tokens
  devices := h₂.devices.trans h₁.devices
  copies := h₂.copies.trans h₁.copies
  clock := Int.le_trans h₁.clock h₂.clock

theorem quiet_of_touches {ε α : Type} {ts : List Table} {cs : List (CacheName × Slot)}
    {p : M ε α} (hp : Touches ts cs p) (hs : Spares .sessions p)
    (hts : Table.sessions ∉ ts ∧ Table.refreshTokens ∉ ts ∧ Table.refreshTokensDevices ∉ ts)
    {r : Except (Fault ε) α} (hx : Exec sem p w r w') : Quiet w w' where
  sessions := (hp.frame hx).db _ hts.1
  tokens := (hp.frame hx).db _ hts.2.1
  devices := (hp.frame hx).db _ hts.2.2
  copies := hs.cache hx
  clock := (hp.frame hx).clock

theorem Revocation.Done.quiet {t : Int} (h₁ : Quiet w w₁) (h : r.Done t w₁ w₂) (h₂ : Quiet w₂ w') :
    r.Done t w w' where
  time := by
    have := h.time
    have := h₁.clock
    have := h₂.clock
    omega
  rows s hs := by
    rw [h₂.sessions] at hs
    have := h₂.clock
    rcases h.rows s hs with he | ⟨hs, he⟩
    · exact .inl (by omega)
    · exact .inr ⟨h₁.sessions ▸ hs, he⟩
  rowsKept s hs he := by
    rw [h₂.sessions]
    exact h.rowsKept s (h₁.sessions ▸ hs) he
  copies k v := by
    rw [h₂.copies, h.copies, h₁.copies, h₁.sessions]
  tokens ht rt hrt ha := by
    rw [h₂.tokens] at hrt
    have := h.tokens ht rt hrt ha
    have := h₂.clock
    omega
  tokensKept ht := by rw [h₂.tokens, h.tokensKept ht, h₁.tokens]
  devices hd rt hrt ha := by
    rw [h₂.devices] at hrt
    have := h.devices hd rt hrt ha
    have := h₂.clock
    omega
  devicesKept hd := by rw [h₂.devices, h.devicesKept hd, h₁.devices]

/-- The refresh tokens of these users have expired, and nothing else has changed. -/
structure EndsTokens (aff : String → Prop) (w w' : World) : Prop where
  tokens : ∀ rt ∈ w'.db .refreshTokens, aff rt.userId → rt.exp ≤ w'.clock / 1000
  others : ∀ t, t ≠ .refreshTokens → w'.db t = w.db t
  cache : w'.cache = w.cache
  clock : w.clock ≤ w'.clock

/-- Both invalidations of refresh tokens: `p` are the tokens they are for. -/
theorem answered_expireTokens (p : RefreshToken → Bool) (aff : String → Prop)
    (hp : ∀ rt, aff rt.userId → p rt = true) :
    Outcomes semUp (do
      let now ← unixTimestamp
      execute [.update .refreshTokens (fun r => decide (r.exp > now) && p r)
        fun r => { r with exp := now }]) w
      fun r w' => r = .ok () ∧ EndsTokens aff w w' := by
  refine outcomes_bind (answered_unixTimestamp fun ms hms => answered_execute fun db hdb => ?_)
  simp only [applyAll, DbWrite.apply, Option.bind_some, Option.some.injEq] at hdb
  subst hdb
  refine ⟨rfl, fun rt hrt ha => ?_, fun t ht => ?_, rfl, hms⟩
  · have hdb := congrArg (rt ∈ ·) (Function.update_self Table.refreshTokens
      ((w.db .refreshTokens).map fun r =>
        if (decide (r.exp > ms / 1000) && p r) = true then { r with exp := ms / 1000 } else r) w.db)
    obtain ⟨r, -, hr⟩ := List.mem_map.mp (hdb.mp hrt)
    show rt.exp ≤ ms / 1000
    split at hr
    · rw [← hr]
    · next hc =>
        rw [← hr] at ha ⊢
        simp only [hp r ha, Bool.and_true, decide_eq_true_eq] at hc
        omega
  · exact Function.update_of_ne ht _ _

theorem answered_expireForUser (uid : String) :
    Outcomes semUp (RefreshToken.invalidateForUser uid) w fun r w' =>
      r = .ok () ∧ EndsTokens (fun uid' => uid' = uid) w w' :=
  answered_expireTokens (fun rt => rt.userId == uid) _ fun rt h => by simp [h]

theorem answered_expireAll :
    Outcomes semUp RefreshToken.invalidateAll w fun r w' =>
      r = .ok () ∧ EndsTokens (fun _ => True) w w' := by
  have h := answered_expireTokens (w := w) (fun _ => true) (fun _ => True) fun _ _ => rfl
  simp only [Bool.and_true] at h
  exact h

/-- A mass invalidation of sessions and one of refresh tokens. -/
theorem EndsSessions.done {hit : Session → Prop} {aff : String → Prop} {now : Int}
    (h : EndsSessions hit now w w₁) (hnow : now = w₁.clock / 1000) (hclock : w.clock ≤ w₁.clock)
    (h₂ : EndsTokens aff w₁ w') (ht : r.endsTokens) (hd : ¬ r.endsDevices)
    (haff : ∀ uid, r.affects uid → aff uid) (hends : ∀ s, hit s → r.ends s)
    (hrest : ∀ s, ¬ hit s → s.exp ≤ now ∨ ¬ r.ends s) (hremoves : ∀ s, r.removes now s ↔ hit s) :
    r.Done now w w' where
  time := by
    have := h₂.clock
    omega
  rows s hs := by
    have := h₂.clock
    rw [h₂.others _ (by decide)] at hs
    rcases (h.rows s).mp hs with ⟨hs, hh⟩ | ⟨s', -, -, rfl⟩
    · rcases hrest s hh with he | he
      · exact .inl (by omega)
      · exact .inr ⟨hs, he⟩
    · refine .inl ?_
      show now ≤ _
      omega
  rowsKept s hs he := by
    rw [h₂.others _ (by decide)]
    exact (h.rows s).mpr (.inl ⟨hs, fun hh => he (hends s hh)⟩)
  copies k v := by
    rw [h₂.cache, h.copies]
    simp only [hremoves]
  tokens _ rt hrt ha := h₂.tokens rt hrt (haff _ ha)
  tokensKept hn := absurd ht hn
  devices h' := absurd h' hd
  devicesKept _ := by rw [h₂.others _ (by decide), h.others _ (by decide)]

/-! Each of the places -/

theorem done_deleteSessions (hu : Session.Unique w) :
    Outcomes semUp deleteSessions w fun _ w' =>
      ∃ t, Revocation.deleteSessions.Done t w w' := by
  refine outcomes_bind (outcomes_mono (Session.answered_invalidateAll hu) fun r w₁ hr => ?_)
  obtain ⟨rfl, hclock, h⟩ := hr
  refine outcomes_mono answered_expireAll fun r w₂ hr => ⟨w₁.clock / 1000, ?_⟩
  refine h.done rfl hclock hr.2 trivial id (fun _ _ => trivial) (fun _ _ => trivial) ?_
    fun _ => Iff.rfl
  intro s hs
  exact .inl (by omega)

theorem done_invalidateForUser (hu : Session.Unique w) {uid : String} (ht : r.endsTokens)
    (hd : ¬ r.endsDevices) (haff : ∀ uid', r.affects uid' → uid' = uid)
    (hends : ∀ s, s.userId = some uid ↔ r.ends s)
    (hremoves : ∀ t s, r.removes t s ↔ s.userId = some uid) :
    Outcomes semUp (deleteSessionsForUser uid) w fun _ w' => ∃ t, r.Done t w w' := by
  refine outcomes_bind (outcomes_mono (Session.answered_invalidateForUser hu uid) fun x w₁ hx => ?_)
  obtain ⟨rfl, hclock, h⟩ := hx
  refine outcomes_mono (answered_expireForUser uid) fun y w₂ hy => ⟨w₁.clock / 1000, ?_⟩
  refine h.done rfl hclock hy.2 ht hd haff (fun s hs => (hends s).mp hs) ?_ (hremoves _)
  exact fun s hs => .inr fun he => hs ((hends s).mpr he)

theorem done_logout (s : Session) :
    Outcomes semUp (postLogout s) w fun _ w' => ∃ t, (Revocation.logout s).Done t w w' := by
  refine outcomes_bind (outcomes_bind (answered_unixTimestamp fun ms hms => ?_))
  refine outcomes_bind (answered_execute fun db hdb => outcomes_bind (answered_cacheDel ?_))
  refine outcomes_ret (outcomes_ret ⟨ms / 1000, ?_⟩)
  simp only [applyAll, DbWrite.apply, Option.bind_some, Option.some.injEq] at hdb
  subst hdb
  let f : Session → Session := fun r =>
    if (r.id == s.id) = true then { r with exp := ms / 1000, state := .loggedOut } else r
  have hdb : Function.update w.db .sessions ((w.db .sessions).map f) .sessions =
      (w.db .sessions).map f := Function.update_self ..
  have hother : ∀ t, t ≠ .sessions →
      Function.update w.db .sessions ((w.db .sessions).map f) t = w.db t :=
    fun t ht => Function.update_of_ne ht _ _
  have hcache : ∀ k v, (World.del { w with clock := ms } .c12hr (Session.cacheIdx s.id)).cache
      .sessions k = some v ↔ w.cache .sessions k = some v := by
    intro k v
    rw [World.del_cache, if_neg (by simp)]
  refine ⟨⟨by omega, Int.le_refl _⟩, fun r hr => ?_, fun r hr he => ?_, fun k v => ?_,
    fun h => absurd h id, fun _ => hother .refreshTokens (by decide), fun h => absurd h id,
    fun _ => hother .refreshTokensDevices (by decide)⟩
  · obtain ⟨r', hr', rfl⟩ := List.mem_map.mp ((congrArg (r ∈ ·) hdb).mp hr)
    by_cases hid : r'.id = s.id
    · refine .inl ?_
      simp [f, hid]
    · refine .inr ?_
      have hf : f r' = r' := if_neg (by simp [hid])
      rw [hf]
      exact ⟨hr', hid⟩
  · refine (congrArg (r ∈ ·) hdb).mpr (List.mem_map.mpr ⟨r, hr, if_neg ?_⟩)
    have he : r.id ≠ s.id := he
    simp [he]
  · refine (hcache k v).trans ⟨fun h => ⟨h, fun _ _ h' => absurd h' id⟩, And.left⟩

theorem done_disable (data : AppState) (hu : Session.Unique w) (u : User)
    (oldEmail : Option String) :
    Outcomes semUp ((Revocation.disable u oldEmail).prog data) w fun r w' =>
      r = .ok () → ∃ t, (Revocation.disable u oldEmail).Done t w w' := by
  rintro r w' hx rfl
  obtain ⟨_, w₁, h₁, hx⟩ := exec_bind_ok.mp hx
  obtain ⟨_, w₂, h₂, hx⟩ := exec_bind_ok.mp hx
  obtain ⟨_, w₃, h₃, hx⟩ := exec_bind_ok.mp hx
  have hq₁ : Quiet w w₁ := by
    refine quiet_of_touches (touches_runIf (User.isEmailFree_touches _ _)) ?_ (by simp)
      h₁.of_answering
    refine within_runIf fun _ => spares_bind (spares_attempt ?_) fun x => ?_
    · exact spares_cached (by decide) (spares_fetchOne _ _)
    · cases x <;> trivial
  have hq₂ : Quiet w₁ w₂ := by
    have htouch : Touches [.users] [] (execute [User.saveStmt { u with enabled := false }]) :=
      touches_execute fun s hs => by rw [List.mem_singleton.mp hs]; exact List.mem_singleton.mpr rfl
    exact quiet_of_touches htouch (spares_execute _) (by simp) h₂.of_answering
  have hq₃ : Quiet w₃ w' := by
    have htouch : Touches [] [(.users, .user)] (do
        forEach (fun email => cacheDel .users (User.cacheIdx email)) oldEmail.toList
        cachePut .users (User.cacheIdx u.id) (.user { u with enabled := false })
        cachePut .users (User.cacheIdx u.email) (.user { u with enabled := false })) :=
      touches_bind (within_forEach fun _ _ => touches_cacheDel _ _) fun _ =>
        touches_bind (touches_cachePut (by simp [CacheVal.slot]) _) fun _ =>
          touches_cachePut (by simp [CacheVal.slot]) _
    refine quiet_of_touches htouch ?_ (by simp) hx.of_answering
    exact spares_bind (within_forEach fun e _ => spares_cacheDel (by decide) _) fun _ =>
      spares_bind (spares_cachePut (by decide) _ _) fun _ => spares_cachePut (by decide) _ _
  have hu₂ : Session.Unique w₂ := by
    unfold Session.Unique
    rw [(hq₁.trans hq₂).sessions]
    exact hu
  rcases exec_runIf.mp h₃ with ⟨-, h₃⟩ | ⟨hne, -⟩
  · obtain ⟨t, hd⟩ := done_invalidateForUser (r := .disable u oldEmail) hu₂ trivial id
      (fun _ h => h) (fun _ => Iff.rfl) (fun _ _ => Iff.rfl) _ _ h₃
    exact ⟨t, hd.quiet (hq₁.trans hq₂) hq₃⟩
  · exact absurd rfl hne

/-- What the deletion of a user does to the sessions and refresh tokens. -/
structure Deleted (uid : String) (w w' : World) : Prop where
  rows : ∀ s, s ∈ w'.db .sessions ↔ s ∈ w.db .sessions ∧ s.userId ≠ some uid
  copies : ∀ k v, w'.cache .sessions k = some v ↔ w.cache .sessions k = some v ∧
    ∀ s ∈ w.db .sessions, s.userId = some uid → k ≠ Session.cacheIdx s.id
  tokens : ∀ rt ∈ w'.db .refreshTokens, rt.userId ≠ uid
  devices : ∀ rt ∈ w'.db .refreshTokensDevices, rt.userId ≠ uid
  clock : w.clock ≤ w'.clock

theorem deleteStmts_db {uid : String} {db db' : Db} (h : applyAll (User.deleteStmts uid) db = some db') :
    db' .sessions = (db .sessions).filter (fun s => !(s.userId == some uid)) ∧
    db' .refreshTokens = (db .refreshTokens).filter (fun rt => !(rt.userId == uid)) ∧
    db' .refreshTokensDevices = (db .refreshTokensDevices).filter (fun rt => !(rt.userId == uid)) := by
  simp only [User.deleteStmts, applyAll, DbWrite.apply, Option.bind_some, Option.some.injEq] at h
  subst h
  refine ⟨?_, ?_, ?_⟩ <;> simp [Function.update]

theorem answered_deleteByUser (uid : String) :
    Outcomes semUp (Session.deleteByUser uid) w fun r w' => r = .ok () ∧
      (∀ s, s ∈ w'.db .sessions ↔ s ∈ w.db .sessions ∧ s.userId ≠ some uid) ∧
      (∀ k v, w'.cache .sessions k = some v ↔ w.cache .sessions k = some v ∧
        ∀ s ∈ w.db .sessions, s.userId = some uid → k ≠ Session.cacheIdx s.id) ∧
      w'.clock = w.clock := by
  refine outcomes_bind (answered_select (outcomes_bind (answered_execute fun db hdb => ?_)))
  simp only [applyAll, DbWrite.apply, Option.bind_some, Option.some.injEq] at hdb
  refine outcomes_mono (Session.answered_uncache Session.id _) fun r w₁ hr => ?_
  obtain ⟨rfl, rfl⟩ := hr
  refine ⟨rfl, fun s => ?_, fun k v => ?_, World.uncached_clock _ _⟩
  · have hrows : db .sessions = (w.db .sessions).filter fun r => !(r.userId == some uid) := by
      rw [← hdb]
      exact Function.update_self ..
    rw [World.uncached_db]
    show s ∈ db .sessions ↔ _
    rw [hrows, List.mem_filter]
    simp
  · rw [World.uncached_cache]
    have hkeys : k ∈ List.map Session.cacheIdx (List.map Session.id
        ((w.db .sessions).filter fun s => s.userId == some uid)) ↔
        ∃ s ∈ w.db .sessions, s.userId = some uid ∧ k = Session.cacheIdx s.id := by
      simp only [List.mem_map, List.mem_filter, beq_iff_eq]
      constructor
      · rintro ⟨_, ⟨s, ⟨hs, hu⟩, rfl⟩, rfl⟩
        exact ⟨s, hs, hu, rfl⟩
      · rintro ⟨s, hs, hu, rfl⟩
        exact ⟨s.id, ⟨s, ⟨hs, hu⟩, rfl⟩, rfl⟩
    split
    · next hk =>
        obtain ⟨s, hs, hu, he⟩ := hkeys.mp hk
        refine ⟨fun h => ?_, fun h => absurd he (h.2 s hs hu)⟩
        cases h
    · next hk =>
        exact ⟨fun h => ⟨h, fun s hs hu he => hk (hkeys.mpr ⟨s, hs, hu, he⟩)⟩, And.left⟩

theorem answered_delete (u : User) :
    Outcomes semUp u.delete w fun _ w' => Deleted u.id w w' := by
  refine outcomes_bind (outcomes_mono (answered_deleteByUser u.id) fun r w₁ hr => ?_)
  obtain ⟨rfl, hrows, hcopies, hclock⟩ := hr
  refine outcomes_bind (answered_execute fun db hdb x w' hx => ?_)
  -- nothing that follows looks at the sessions, whatever comes out of it
  have hq : Quiet { w₁ with db } w' := by
    have htouch : Touches [] [(.c12hr, .count)] User.count :=
      touches_cached (touches_bind (touches_select _ _) fun _ => touches_ret _)
        (by simp [CacheVal.slot])
    have hspares : Spares .sessions User.count :=
      spares_cached (by decide) (spares_bind (spares_select _ _) fun _ => trivial)
    refine quiet_of_touches (touches_bind (touches_cacheDel _ _) fun _ =>
      touches_bind (touches_cacheDel _ _) fun _ => touches_bind htouch fun _ =>
        touches_cachePut (by simp [CacheVal.slot]) _) ?_ (by simp) hx.of_answering
    exact spares_bind (spares_cacheDel (by decide) _) fun _ =>
      spares_bind (spares_cacheDel (by decide) _) fun _ => spares_bind hspares fun _ =>
        spares_cachePut (by decide) _ _
  obtain ⟨hsessions, htokens, hdevices⟩ := deleteStmts_db hdb
  refine ⟨fun s => ?_, fun k v => ?_, fun rt hrt => ?_, fun rt hrt => ?_, ?_⟩
  · rw [hq.sessions.trans hsessions, List.mem_filter, hrows]
    simp
  · rw [hq.copies]
    exact hcopies k v
  · rw [hq.tokens.trans htokens, List.mem_filter] at hrt
    simpa using hrt.2
  · rw [hq.devices.trans hdevices, List.mem_filter] at hrt
    simpa using hrt.2
  · rw [← hclock]
    exact hq.clock

/-- The sessions and refresh tokens of a user have expired, then the user is deleted. -/
theorem Deleted.done {secs : ℕ} {now ts t : Int} {u : User} {hts : ts ≤ now}
    (h : EndsSessions (fun s => s.userId = some u.id) t w w₁) (ht : t = w₁.clock / 1000)
    (hclock : w.clock ≤ w₁.clock) (h₂ : EndsTokens (fun uid => uid = u.id) w₁ w₂)
    (h₃ : Deleted u.id w₂ w') (hdel : (ts - now).natAbs > secs) :
    (Revocation.expired (some secs) now ts u hts).Done t w w' where
  time := by
    have := h₂.clock
    have := h₃.clock
    omega
  rows s hs := by
    obtain ⟨hs, hne⟩ := (h₃.rows s).mp hs
    rw [h₂.others _ (by decide)] at hs
    rcases (h.rows s).mp hs with ⟨hs, hh⟩ | ⟨s', -, hh, rfl⟩
    · exact .inr ⟨hs, hh⟩
    · exact absurd hh hne
  rowsKept s hs he := by
    refine (h₃.rows s).mpr ⟨?_, he⟩
    rw [h₂.others _ (by decide)]
    exact (h.rows s).mpr (.inl ⟨hs, he⟩)
  copies k v := by
    rw [h₃.copies, h₂.cache, h.copies]
    refine ⟨And.left, fun hk => ⟨hk, fun s hs hh => ?_⟩⟩
    rw [h₂.others _ (by decide)] at hs
    rcases (h.rows s).mp hs with ⟨-, hn⟩ | ⟨s', hs', hh', rfl⟩
    · exact absurd hh hn
    · exact hk.2 s' hs' hh'
  tokens _ rt hrt ha := absurd ha (h₃.tokens rt hrt)
  tokensKept hn := absurd trivial hn
  devices _ rt hrt ha := absurd ha (h₃.devices rt hrt)
  devicesKept hn := absurd hdel hn

theorem answered_ignoreErr {p : M ErrorResponse Unit} {P : World → Prop}
    (hp : Outcomes semUp p w fun r w' => r = .ok () ∧ P w') :
    Outcomes semUp (ignoreErr p) w fun r w' => r = .ok () ∧ P w' := by
  refine outcomes_bind (outcomes_tried (outcomes_mono hp fun r w₁ hr => ?_))
  obtain ⟨rfl, hP⟩ := hr
  exact outcomes_ret ⟨rfl, hP⟩

theorem done_expired (data : AppState) (hu : Session.Unique w) (cleanup : Option ℕ) (now ts : Int)
    (u : User) (hts : ts ≤ now) :
    Outcomes semUp ((Revocation.expired cleanup now ts u hts).prog data) w fun _ w' =>
      ∃ t, (Revocation.expired cleanup now ts u hts).Done t w w' := by
  show Outcomes semUp (if now < ts then _ else _) w _
  rw [if_neg (by omega)]
  refine outcomes_bind (outcomes_mono (answered_ignoreErr
    (Session.answered_invalidateForUser hu u.id)) fun r w₁ hr => ?_)
  obtain ⟨rfl, hclock, h⟩ := hr
  refine outcomes_bind (outcomes_mono (answered_ignoreErr (answered_expireForUser u.id))
    fun r w₂ hr => ?_)
  obtain ⟨rfl, h₂⟩ := hr
  have hkeep : ∀ c, ¬ (Revocation.expired c now ts u hts).endsDevices →
      (Revocation.expired c now ts u hts).Done (w₁.clock / 1000) w w₂ := fun c hd =>
    h.done rfl hclock h₂ trivial hd (fun _ h => h) (fun _ h => h) (fun _ h => .inr h)
      fun _ => Iff.rfl
  rcases cleanup with - | secs
  · exact outcomes_ret ⟨_, hkeep none id⟩
  · intro r w' hx
    rcases exec_runIf.mp hx with ⟨hdel, hx⟩ | ⟨hdel, -, rfl⟩
    · have hdeleted : Outcomes semUp (ignoreErr (User.delete { u with userExpires := some ts }))
          w₂ fun _ w' => Deleted u.id w₂ w' := by
        refine outcomes_bind (outcomes_tried (outcomes_mono (answered_delete _) fun x w₃ h₃ => ?_))
        rcases x with (e | msg) | a
        · exact outcomes_ret h₃
        · exact h₃
        · exact outcomes_ret h₃
      exact ⟨_, (hdeleted r w' hx).done h rfl hclock h₂ hdel⟩
    · exact ⟨_, hkeep (some secs) hdel⟩

end Done

/-- **When a revocation ends all access**: sessions that are accepted later and refresh tokens
that have not expired are left behind exactly if it does not touch them. -/
theorem revoked_iff (data : AppState) (r : Revocation) {w w' : World} (timeout : Int)
    (hu : Session.Unique w) (hx : Exec semUp (r.prog data) w (.ok ()) w') :
    ∃ t, w.clock / 1000 ≤ t ∧ t ≤ w'.clock / 1000 ∧
      (RevokedFor r.affects timeout w' ↔ r.CanRevoke t (w'.clock / 1000) timeout w) := by
  have hdone : ∃ t, r.Done t w w' := by
    cases r with
    | disable u oldEmail => exact done_disable data hu u oldEmail _ _ hx rfl
    | deleteSessions => exact done_deleteSessions hu _ _ hx
    | deleteSessionsForUser uid =>
        exact done_invalidateForUser (r := .deleteSessionsForUser uid) hu trivial id
          (fun _ h => h) (fun _ => Iff.rfl) (fun _ _ => Iff.rfl) _ _ hx
    | expired cleanup now ts u hts => exact done_expired data hu cleanup now ts u hts _ _ hx
    | logout s => exact done_logout s _ _ hx
  obtain ⟨t, h⟩ := hdone
  exact ⟨t, h.time.1, h.time.2, h.revoked⟩

/-- The session of alice, its cached copy and a refresh token, in the second 100. -/
def loggedInWorld : World :=
  let w := sessionWorld [aliceSessionAt 200 90] (some (aliceSessionAt 200 90))
  let token : RefreshToken :=
    { id := "token", userId := "alice", nbf := 90, exp := 1000, scope := none, isMfa := false }
  { w with db := Function.update w.db .refreshTokens [token] }

/-- After an admin has deleted the sessions of alice, nothing is left. -/
theorem revoked_iff_alice :
    ∃ w', Exec semUp ((Revocation.deleteSessionsForUser "alice").prog sampleState)
        loggedInWorld (.ok ()) w' ∧
      RevokedFor (Revocation.deleteSessionsForUser "alice").affects 60 w' := by
  obtain ⟨r, w', hx, hr⟩ := Pool.exists_exec_of_choices Op.run (deleteSessionsForUser "alice")
    [.time 100000, .ok, .ok, .ok, .ok, .time 100000, .ok] loggedInWorld
    (fun r _ => r.isOk) (by decide +kernel)
  rcases r with e | ⟨⟩
  · cases hr
  have hstrict : Strict Op.Answered (deleteSessionsForUser "alice") :=
    strict_bind (Session.strict_invalidateForUser _) fun _ =>
      strict_bind strict_unixTimestamp fun _ => strict_execute _
  have hx := hx.answering hstrict
  refine ⟨w', hx, ?_⟩
  obtain ⟨t, -, -, h⟩ := revoked_iff sampleState (.deleteSessionsForUser "alice")
    (w := loggedInWorld) 60 (by decide) hx
  refine h.mpr ⟨fun s hs _ he => ?_, fun k s hk _ hne => ?_, fun h => absurd trivial h,
    fun _ rt hrt => by cases hrt⟩
  · have hs : s ∈ [aliceSessionAt 200 90] := hs
    rw [List.mem_singleton.mp hs] at he
    exact absurd rfl he
  · have hkey : k = Session.cacheIdx "session" := by
      simp only [loggedInWorld, sessionWorld] at hk
      split at hk
      · next h => exact h.2.trans (by decide)
      · cases hk
    exact absurd hkey (hne (aliceSessionAt 200 90) (List.mem_singleton.mpr rfl) rfl)

/-- A logout leaves the refresh tokens of the user. -/
theorem logout_leaves_tokens :
    ¬ ∀ (data : AppState) (r : Revocation) w w' timeout, Session.Unique w →
      Exec sem (r.prog data) w (.ok ()) w' → RevokedFor r.affects timeout w' := by
  intro h
  obtain ⟨r, w', hx, hr⟩ := Pool.exists_exec_of_choices Op.run (postLogout (aliceSessionAt 200 90))
    [.time 100000, .ok, .ok] loggedInWorld
    (fun r w' => r.isOk &&
      ((w'.db .refreshTokens).any (fun rt => rt.userId == "alice" && rt.exp == 1000) &&
        w'.clock == 100000)) (by decide +kernel)
  rcases r with e | ⟨⟩
  · cases hr
  simp only [Bool.and_eq_true, List.any_eq_true, beq_iff_eq] at hr
  obtain ⟨-, ⟨rt, hrt, huser, hexp⟩, hclock⟩ := hr
  have hr := h sampleState (.logout (aliceSessionAt 200 90)) _ w' 60 (by decide) hx
  have hle := hr.tokens rt hrt (by rw [huser]; rfl)
  rw [hexp, hclock] at hle
  exact absurd hle (by decide)

end Rauthy
