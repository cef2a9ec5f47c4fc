/-
Rauthy/EventListener.lean

The event listener (`EventListener::listen`): every event that is sent gets a task of its own, which
inserts it into the database, forwards it to the event router and sends the notifications
(`handle_event_si`; with high availability, `handle_event_ha` forwards it to a channel of Postgres).
An insertion and a publication are tried again until they succeed, so it matters that a statement
can fail after it has been carried out.  Old rows are deleted by `events_cleanup`
(`rauthy-main/src/schedulers.rs`).

Main results:
  * `events_handled`: what has become of every event, in every run.  An event whose insertion has
    been carried out and reported as failed is not forwarded until its row is cleaned up;
  * `events_any_order`: as there is one task for each event, nothing keeps them in order.
-/
import Mathlib.Logic.Relation
import Rauthy.EventRouter

namespace Rauthy

open EventRouter (Event)

/-! ### The listener -/

inductive NotifyTarget where
  | email
  | matrix
  | slack
  deriving DecidableEq

/-- The levels that are configured; a notifier without one is not there. -/
structure ListenerConfig where
  isHa : Bool
  eventPersistLevel : Int
  notifierEmail : Option Int
  notifierMatrix : Option Int
  notifierSlack : Option Int

namespace ListenerConfig

variable (cfg : ListenerConfig) (event : Event)

def persists : Bool := event.level.value ≥ cfg.eventPersistLevel

/-- A test event goes to every notifier. -/
def selects (level : Option Int) : Bool :=
  level.any fun level => event.typ = .test || event.level.value ≥ level

/-- `EventNotifier::send`: the notifiers that are asked, in this order -/
def send : List NotifyTarget :=
  (if selects event cfg.notifierEmail then [.email] else []) ++
    (if selects event cfg.notifierMatrix then [.matrix] else []) ++
      if selects event cfg.notifierSlack then [.slack] else []

end ListenerConfig

/-- What is next for an event. -/
inductive EventStage where
  | queued
  | inserting
  | forwarding
  | notifying
  | finished
  deriving DecidableEq

structure EventTask where
  event : Event
  stage : EventStage

/-- The primary key of the table. -/
def eventKey (e : Event) : String × Int := (e.id, e.timestamp)

def EventTask.key (t : EventTask) : String × Int := eventKey t.event

/-- The events that have been sent with their tasks; the rows of the table, what has been forwarded
and which notifications have been sent; whether the router receives; and the thresholds of the
cleanups so far. -/
structure EventListener where
  tasks : List EventTask
  rows : List Event
  forwarded : List Event
  notified : List (Event × NotifyTarget)
  routerRuns : Bool
  cleanups : List Int

namespace EventListener

/-- `events_cleanup`, with the time `EVENT_CLEANUP_DAYS` ago -/
def eventsCleanup (s : EventListener) (threshold : Int) : EventListener :=
  { s with
    rows := s.rows.filter fun e => !decide (e.timestamp < threshold)
    cleanups := threshold :: s.cleanups }

/-- A step of the loop, of one of the tasks or of the environment.  An insertion or a publication
that fails and has not been carried out changes nothing. -/
inductive Step (cfg : ListenerConfig) : EventListener → EventListener → Prop
  | send {s : EventListener} {e : Event} (fresh : ∀ t ∈ s.tasks, t.key ≠ eventKey e) :
      Step cfg s { s with tasks := s.tasks ++ [⟨e, .queued⟩] }
  /-- The loop takes the first event of its channel. -/
  | spawn {s : EventListener} {e : Event} {l l' : List EventTask}
      (task : s.tasks = l ++ ⟨e, .queued⟩ :: l') (first : ∀ t ∈ l, t.stage ≠ .queued) :
      Step cfg s { s with
        tasks := l ++ ⟨e, if cfg.persists e then .inserting else .forwarding⟩ :: l' }
  | insert {s : EventListener} {e : Event} {l l' : List EventTask}
      (task : s.tasks = l ++ ⟨e, .inserting⟩ :: l')
      (free : ∀ r ∈ s.rows, eventKey r ≠ eventKey e) :
      Step cfg s { s with tasks := l ++ ⟨e, .forwarding⟩ :: l', rows := s.rows ++ [e] }
  /-- The insertion is carried out, and an error is returned. -/
  | insertLost {s : EventListener} {e : Event} {l l' : List EventTask}
      (task : s.tasks = l ++ ⟨e, .inserting⟩ :: l')
      (free : ∀ r ∈ s.rows, eventKey r ≠ eventKey e) :
      Step cfg s { s with tasks := l ++ ⟨e, .inserting⟩ :: l', rows := s.rows ++ [e] }
  | forward {s : EventListener} {e : Event} {l l' : List EventTask}
      (task : s.tasks = l ++ ⟨e, .forwarding⟩ :: l')
      (opened : cfg.isHa = false → s.routerRuns = true) :
      Step cfg s { s with
        tasks := l ++ ⟨e, .notifying⟩ :: l', forwarded := s.forwarded ++ [e] }
  /-- The publication on the channel of Postgres is carried out, and an error is returned. -/
  | forwardLost {s : EventListener} {e : Event} {l l' : List EventTask}
      (task : s.tasks = l ++ ⟨e, .forwarding⟩ :: l') (ha : cfg.isHa = true) :
      Step cfg s { s with
        tasks := l ++ ⟨e, .forwarding⟩ :: l', forwarded := s.forwarded ++ [e] }
  /-- The channel to the router is closed, which is only logged. -/
  | forwardClosed {s : EventListener} {e : Event} {l l' : List EventTask}
      (task : s.tasks = l ++ ⟨e, .forwarding⟩ :: l') (ha : cfg.isHa = false)
      (closed : s.routerRuns = false) :
      Step cfg s { s with tasks := l ++ ⟨e, .notifying⟩ :: l' }
  | routerStops {s : EventListener} : Step cfg s { s with routerRuns := false }
  | cleanup {s : EventListener} (threshold : Int) : Step cfg s (s.eventsCleanup threshold)
  /-- The notifiers that fail are only logged. -/
  | notify {s : EventListener} {e : Event} {l l' : List EventTask} {sent : List NotifyTarget}
      (task : s.tasks = l ++ ⟨e, .notifying⟩ :: l') (sublist : sent.Sublist (cfg.send e)) :
      Step cfg s { s with
        tasks := l ++ ⟨e, .finished⟩ :: l'
        notified := s.notified ++ sent.map fun target => (e, target) }

def init : EventListener := ⟨[], [], [], [], true, []⟩

abbrev Run (cfg : ListenerConfig) : EventListener → EventListener → Prop :=
  Relation.ReflTransGen (Step cfg)

/-- A cleanup has deleted the row of the event, if it was there. -/
def Cleaned (s : EventListener) (e : Event) : Prop := ∃ th ∈ s.cleanups, e.timestamp < th

/-- The notifications about an event. -/
def targets (s : EventListener) (e : Event) : List NotifyTarget :=
  (s.notified.filter fun n => n.1 = e).map Prod.snd

end EventListener

open EventListener (Step Run)

/-! ### What becomes of an event -/

/-- How often an event is forwarded: once, if the router runs; with high availability once or more,
as a publication that is reported as failed is repeated. -/
def ForwardedOnce (cfg : ListenerConfig) (routerRuns : Bool) (forwarded : ℕ) : Prop :=
  (cfg.isHa = true → 1 ≤ forwarded) ∧
    (cfg.isHa = false → forwarded ≤ 1 ∧ (routerRuns = true → forwarded = 1))

/-- An event that is to be stored has one row, unless that was cleaned up; no other one has any. -/
def StoredOnce (cfg : ListenerConfig) (cleaned : Prop) (e : Event) (rows : ℕ) : Prop :=
  rows ≤ (cfg.persists e).toNat ∧ (¬ cleaned → rows = (cfg.persists e).toNat)

/-- The rows, the copies that were forwarded and the notifications of an event in each stage. -/
def Handled (cfg : ListenerConfig) (routerRuns : Bool) (cleaned : Prop) (e : Event)
    (rows forwarded : ℕ) (targets : List NotifyTarget) : EventStage → Prop
  | .queued => rows = 0 ∧ forwarded = 0 ∧ targets = []
  | .inserting => cfg.persists e = true ∧ rows ≤ 1 ∧ forwarded = 0 ∧ targets = []
  | .forwarding => StoredOnce cfg cleaned e rows ∧ (cfg.isHa = false → forwarded = 0) ∧
      targets = []
  | .notifying => StoredOnce cfg cleaned e rows ∧ ForwardedOnce cfg routerRuns forwarded ∧
      targets = []
  | .finished => StoredOnce cfg cleaned e rows ∧ ForwardedOnce cfg routerRuns forwarded ∧
      targets.Sublist (cfg.send e)

/-- The invariant: all events are in some stage, and nothing is there of any other one. -/
structure AllHandled (cfg : ListenerConfig) (s : EventListener) : Prop where
  keys : (s.tasks.map EventTask.key).Nodup
  handled : ∀ t ∈ s.tasks, Handled cfg s.routerRuns (s.Cleaned t.event) t.event
    (s.rows.count t.event) (s.forwarded.count t.event) (s.targets t.event) t.stage
  others : ∀ e, e ∉ s.tasks.map EventTask.event →
    s.rows.count e = 0 ∧ s.forwarded.count e = 0 ∧ s.targets e = []

section EventListener

variable {cfg : ListenerConfig} {s s' : EventListener} {e : Event} {l l' : List EventTask}
  {k k' : EventStage}
  {tasks : List EventTask} {es : List Event}
  {targets sent : List NotifyTarget}

/-- What a step of the task of `e` leaves alone. -/
structure Frames (e : Event) (s s' : EventListener) : Prop where
  runs : s'.routerRuns = s.routerRuns
  cleanups : s'.cleanups = s.cleanups
  rows : ∀ e', e' ≠ e → s'.rows.count e' = s.rows.count e'
  forwarded : ∀ e', e' ≠ e → s'.forwarded.count e' = s.forwarded.count e'
  targets : ∀ e', e' ≠ e → s'.targets e' = s.targets e'

theorem count_append_singleton_ne {e' : Event} (h : e' ≠ e) (es : List Event) :
    (es ++ [e]).count e' = es.count e' := by
  rw [List.count_append, List.count_singleton, beq_eq_false_iff_ne.mpr h.symm]
  rfl

theorem event_ne (hkeys : ((l ++ ⟨e, k⟩ :: l').map EventTask.key).Nodup) {t : EventTask}
    (ht : t ∈ l ∨ t ∈ l') : t.event ≠ e := by
  intro he
  rw [List.map_append, List.map_cons, List.nodup_middle] at hkeys
  apply (List.nodup_cons.mp hkeys).1
  have hkey : t.key = eventKey e := congrArg eventKey he
  show eventKey e ∈ _
  rw [← hkey, List.mem_append]
  exact ht.imp List.mem_map_of_mem List.mem_map_of_mem

/-- One lemma for all steps of the tasks: only the event of the task has to be looked at. -/
theorem AllHandled.step (h : AllHandled cfg s) (htask : s.tasks = l ++ ⟨e, k⟩ :: l')
    (htask' : s'.tasks = l ++ ⟨e, k'⟩ :: l') (hframe : Frames e s s')
    (hself : Handled cfg s.routerRuns (s.Cleaned e) e (s'.rows.count e) (s'.forwarded.count e)
      (s'.targets e) k') : AllHandled cfg s' := by
  have hkeys := h.keys
  rw [htask] at hkeys
  constructor
  · rw [htask', List.map_append, List.map_cons]
    rw [List.map_append, List.map_cons] at hkeys
    exact hkeys
  · intro t ht
    rw [htask'] at ht
    rw [hframe.runs, EventListener.Cleaned, hframe.cleanups]
    have hother : t ∈ l ∨ t ∈ l' → Handled cfg s.routerRuns (s.Cleaned t.event) t.event
        (s'.rows.count t.event) (s'.forwarded.count t.event) (s'.targets t.event) t.stage := by
      intro ht
      have hne : t.event ≠ e := event_ne hkeys ht
      rw [hframe.rows _ hne, hframe.forwarded _ hne, hframe.targets _ hne]
      apply h.handled
      rw [htask, List.mem_append]
      exact ht.imp_right (List.mem_cons_of_mem _)
    obtain ht | ht := List.mem_append.mp ht
    · exact hother (.inl ht)
    · obtain rfl | ht := List.mem_cons.mp ht
      · exact hself
      · exact hother (.inr ht)
  · intro e' he'
    have hevents : s'.tasks.map EventTask.event = s.tasks.map EventTask.event := by
      rw [htask, htask', List.map_append, List.map_append, List.map_cons, List.map_cons]
    have hne : e' ≠ e := by
      rintro rfl
      apply he'
      rw [htask', List.map_append, List.map_cons]
      exact List.mem_append_right _ List.mem_cons_self
    rw [hframe.rows _ hne, hframe.forwarded _ hne, hframe.targets _ hne]
    exact h.others e' (hevents ▸ he')

/-- A cleanup deletes all copies of a row or none. -/
theorem count_cleanup {th : Int} :
    (s.eventsCleanup th).rows.count e = if e.timestamp < th then 0 else s.rows.count e := by
  show (s.rows.filter _).count e = _
  by_cases he : e.timestamp < th
  · rw [if_pos he]
    apply List.count_eq_zero.mpr
    intro hmem
    obtain ⟨-, hkept⟩ := List.mem_filter.mp hmem
    rw [decide_eq_true he] at hkept
    cases hkept
  · rw [if_neg he]
    exact List.count_filter (by rw [decide_eq_false he]; rfl)

theorem handled_cleanup {runs : Bool} {rows forwarded : ℕ} {th : Int}
    (h : Handled cfg runs (s.Cleaned e) e rows forwarded targets k) :
    Handled cfg runs ((s.eventsCleanup th).Cleaned e) e (if e.timestamp < th then 0 else rows)
      forwarded targets k := by
  have hle : (if e.timestamp < th then 0 else rows) ≤ rows := by split <;> omega
  have hstored : StoredOnce cfg (s.Cleaned e) e rows →
      StoredOnce cfg ((s.eventsCleanup th).Cleaned e) e
        (if e.timestamp < th then 0 else rows) := by
    rintro ⟨hmost, hsame⟩
    apply And.intro (hle.trans hmost)
    intro hclean
    rw [if_neg fun he => hclean ⟨th, List.mem_cons_self, he⟩]
    apply hsame
    rintro ⟨th', hth', he⟩
    exact hclean ⟨th', List.mem_cons_of_mem _ hth', he⟩
  cases k with
  | queued =>
      obtain ⟨hrows, hrest⟩ := h
      exact ⟨Nat.le_zero.mp (hrows ▸ hle), hrest⟩
  | inserting =>
      obtain ⟨hp, hrows, hrest⟩ := h
      exact ⟨hp, hle.trans hrows, hrest⟩
  | forwarding => exact ⟨hstored h.1, h.2⟩
  | notifying => exact ⟨hstored h.1, h.2⟩
  | finished => exact ⟨hstored h.1, h.2⟩

theorem storedOnce_self {cleaned : Prop} : StoredOnce cfg cleaned e (cfg.persists e).toNat :=
  ⟨Nat.le_refl _, fun _ => rfl⟩

theorem handled_stops {runs : Bool} {cleaned : Prop} {rows forwarded : ℕ}
    (h : Handled cfg runs cleaned e rows forwarded targets k) :
    Handled cfg false cleaned e rows forwarded targets k := by
  have hforwarded : ForwardedOnce cfg runs forwarded → ForwardedOnce cfg false forwarded := by
    rintro ⟨hha, hsi⟩
    exact ⟨hha, fun hcfg => ⟨(hsi hcfg).1, fun hfalse => absurd hfalse Bool.false_ne_true⟩⟩
  cases k with
  | queued => exact h
  | inserting => exact h
  | forwarding => exact h
  | notifying => exact ⟨h.1, hforwarded h.2.1, h.2.2⟩
  | finished => exact ⟨h.1, hforwarded h.2.1, h.2.2⟩

theorem Frames.of_tasks : Frames e s { s with tasks } :=
  ⟨rfl, rfl, fun _ _ => rfl, fun _ _ => rfl, fun _ _ => rfl⟩

theorem Frames.of_rows :
    Frames e s { s with tasks, rows := s.rows ++ [e] } :=
  ⟨rfl, rfl, fun _ hne => count_append_singleton_ne hne _, fun _ _ => rfl, fun _ _ => rfl⟩

theorem Frames.of_forwarded :
    Frames e s { s with tasks, forwarded := s.forwarded ++ [e] } :=
  ⟨rfl, rfl, fun _ _ => rfl, fun _ hne => count_append_singleton_ne hne _, fun _ _ => rfl⟩

theorem count_append_singleton_self (es : List Event) : (es ++ [e]).count e = es.count e + 1 := by
  rw [List.count_append, List.count_singleton, beq_self_eq_true]
  rfl

theorem count_of_free (hfree : ∀ r ∈ s.rows, eventKey r ≠ eventKey e) : s.rows.count e = 0 :=
  List.count_eq_zero.mpr fun he => hfree e he rfl

theorem targets_notify {e' : Event} :
    EventListener.targets { s with tasks, notified := s.notified ++ sent.map fun t => (e, t) } e' =
      s.targets e' ++ if e' = e then sent else [] := by
  rw [EventListener.targets, List.filter_append, List.map_append, EventListener.targets,
    List.filter_map, List.map_map]
  congr 1
  by_cases he : e' = e
  · have hself : sent.filter ((fun n => decide (n.1 = e')) ∘ fun t => (e, t)) = sent :=
      List.filter_eq_self.mpr fun t _ => decide_eq_true he.symm
    rw [if_pos he, hself]
    exact List.map_id _
  · have hnil : sent.filter ((fun n => decide (n.1 = e')) ∘ fun t => (e, t)) = [] :=
      List.filter_eq_nil_iff.mpr fun t _ h => he (of_decide_eq_true h).symm
    rw [if_neg he, hnil]
    rfl

theorem Frames.of_notified :
    Frames e s { s with tasks, notified := s.notified ++ sent.map fun t => (e, t) } := by
  constructor
  · rfl
  · rfl
  · exact fun _ _ => rfl
  · exact fun _ _ => rfl
  · intro e' hne
    rw [targets_notify, if_neg hne, List.append_nil]

theorem AllHandled.send (h : AllHandled cfg s) (hfresh : ∀ t ∈ s.tasks, t.key ≠ eventKey e) :
    AllHandled cfg { s with tasks := s.tasks ++ [⟨e, .queued⟩] } := by
  have hnew : e ∉ s.tasks.map EventTask.event := by
    intro he
    obtain ⟨t, ht, rfl⟩ := List.mem_map.mp he
    exact hfresh t ht rfl
  constructor
  · show ((s.tasks ++ [_]).map EventTask.key).Nodup
    rw [List.map_append, List.nodup_append]
    apply And.intro h.keys
    apply And.intro (List.nodup_singleton _)
    intro key hkey key' hkey'
    obtain ⟨t, ht, rfl⟩ := List.mem_map.mp hkey
    rw [List.mem_singleton.mp hkey']
    exact hfresh t ht
  · intro t ht
    obtain ht | ht := List.mem_append.mp ht
    · exact h.handled t ht
    · rw [List.mem_singleton.mp ht]
      exact h.others e hnew
  · intro e' he'
    apply h.others e'
    intro hmem
    apply he'
    show e' ∈ (s.tasks ++ _).map EventTask.event
    rw [List.map_append]
    exact List.mem_append_left _ hmem

theorem AllHandled.next (h : AllHandled cfg s) (hstep : Step cfg s s') : AllHandled cfg s' := by
  have hhead : ∀ {e k l l'}, s.tasks = l ++ ⟨e, k⟩ :: l' → Handled cfg s.routerRuns (s.Cleaned e) e
      (s.rows.count e) (s.forwarded.count e) (s.targets e) k := by
    intro e k l l' htask
    apply h.handled ⟨e, k⟩
    rw [htask]
    exact List.mem_append_right _ List.mem_cons_self
  cases hstep with
  | send fresh => exact h.send fresh
  | @spawn e _ _ task first =>
      apply h.step task rfl .of_tasks
      obtain ⟨hrows, hforwarded, htargets⟩ := hhead task
      show Handled cfg s.routerRuns _ e (s.rows.count e) (s.forwarded.count e) (s.targets e) _
      cases hp : cfg.persists e with
      | true => exact ⟨hp, by rw [hrows]; exact Nat.zero_le _, hforwarded, htargets⟩
      | false =>
          have hnone : s.rows.count e = (cfg.persists e).toNat := by rw [hrows, hp]; rfl
          exact ⟨hnone ▸ storedOnce_self, fun _ => hforwarded, htargets⟩
  | @insert e _ _ task free =>
      apply h.step task rfl .of_rows
      obtain ⟨hp, -, hforwarded, htargets⟩ := hhead task
      apply And.intro _ ⟨fun _ => hforwarded, htargets⟩
      have hone : 0 + 1 = (cfg.persists e).toNat := by rw [hp]; rfl
      rw [count_append_singleton_self, count_of_free free, hone]
      exact storedOnce_self
  | insertLost task free =>
      apply h.step task rfl .of_rows
      obtain ⟨hp, -, hforwarded, htargets⟩ := hhead task
      apply And.intro hp (And.intro _ ⟨hforwarded, htargets⟩)
      rw [count_append_singleton_self, count_of_free free]
  | forward task opened =>
      apply h.step task rfl .of_forwarded
      obtain ⟨hrows, hsi, htargets⟩ := hhead task
      apply And.intro hrows (And.intro _ htargets)
      rw [count_append_singleton_self]
      constructor
      · intro _
        exact Nat.le_add_left _ _
      · intro hcfg
        rw [hsi hcfg]
        exact ⟨Nat.le_refl _, fun _ => rfl⟩
  | forwardLost task ha =>
      apply h.step task rfl .of_forwarded
      obtain ⟨hrows, -, htargets⟩ := hhead task
      apply And.intro hrows (And.intro _ htargets)
      intro hcfg
      rw [ha] at hcfg
      cases hcfg
  | forwardClosed task ha closed =>
      apply h.step task rfl .of_tasks
      obtain ⟨hrows, hsi, htargets⟩ := hhead task
      apply And.intro hrows (And.intro _ htargets)
      constructor
      · intro hcfg
        rw [ha] at hcfg
        cases hcfg
      · intro hcfg
        apply And.intro (by rw [hsi hcfg]; exact Nat.zero_le _)
        intro hruns
        rw [closed] at hruns
        cases hruns
  | routerStops => exact ⟨h.keys, fun t ht => handled_stops (h.handled t ht), h.others⟩
  | cleanup th =>
      refine ⟨h.keys, fun t ht => ?_, fun e' he' => ?_⟩
      · rw [count_cleanup]
        exact handled_cleanup (h.handled t ht)
      · obtain ⟨hrows, hrest⟩ := h.others e' he'
        apply And.intro _ hrest
        rw [count_cleanup, hrows, ite_self]
  | notify task sublist =>
      apply h.step task rfl .of_notified
      obtain ⟨hrows, hforwarded, htargets⟩ := hhead task
      apply And.intro hrows (And.intro hforwarded _)
      rw [targets_notify, htargets, if_pos rfl, List.nil_append]
      exact sublist

theorem allHandled_init : AllHandled cfg EventListener.init where
  keys := .nil
  handled _ ht := absurd ht List.not_mem_nil
  others _ _ := ⟨rfl, rfl, rfl⟩

theorem mem_of_replaced {a b t : EventTask} (ht : t ∈ l ++ a :: l') (hne : t ≠ a) :
    t ∈ l ++ b :: l' := by
  obtain ht | ht := List.mem_append.mp ht
  · exact List.mem_append_left _ ht
  · exact List.mem_append_right _ (List.mem_cons_of_mem _ ((List.mem_cons.mp ht).resolve_left hne))

theorem cleaned_step (hstep : Step cfg s s') (h : s.Cleaned e) : s'.Cleaned e := by
  cases hstep with
  | cleanup th =>
      obtain ⟨th', hth', he⟩ := h
      exact ⟨th', List.mem_cons_of_mem _ hth', he⟩
  | _ => exact h

/-- The insertion of a row that is there already is refused until that is cleaned up. -/
theorem stuck_step (ht : ⟨e, .inserting⟩ ∈ s.tasks) (he : e ∈ s.rows) (hclean : ¬ s'.Cleaned e)
    (hstep : Step cfg s s') : ⟨e, .inserting⟩ ∈ s'.tasks ∧ e ∈ s'.rows := by
  cases hstep with
  | send => exact ⟨List.mem_append_left _ ht, he⟩
  | spawn task =>
      rw [task] at ht
      exact ⟨mem_of_replaced ht (by simp), he⟩
  | insert task free =>
      rw [task] at ht
      apply And.intro _ (List.mem_append_left _ he)
      apply mem_of_replaced ht
      rintro ⟨⟩
      exact free e he rfl
  | insertLost task =>
      rw [task] at ht
      exact ⟨ht, List.mem_append_left _ he⟩
  | forward task =>
      rw [task] at ht
      exact ⟨mem_of_replaced ht (by simp), he⟩
  | forwardLost task =>
      rw [task] at ht
      exact ⟨mem_of_replaced ht (by simp), he⟩
  | forwardClosed task =>
      rw [task] at ht
      exact ⟨mem_of_replaced ht (by simp), he⟩
  | routerStops => exact ⟨ht, he⟩
  | cleanup th =>
      apply And.intro ht
      apply List.mem_filter.mpr
      rw [decide_eq_false fun hlt => hclean ⟨th, List.mem_cons_self, hlt⟩]
      exact ⟨he, rfl⟩
  | notify task =>
      rw [task] at ht
      exact ⟨mem_of_replaced ht (by simp), he⟩

theorem stuck_run (ht : ⟨e, .inserting⟩ ∈ s.tasks) (he : e ∈ s.rows) (h : Run cfg s s')
    (hclean : ¬ s'.Cleaned e) : ⟨e, .inserting⟩ ∈ s'.tasks ∧ e ∈ s'.rows := by
  induction h with
  | refl => exact ⟨ht, he⟩
  | tail _ hstep ih =>
      obtain ⟨ht', he'⟩ := ih fun hc => hclean (cleaned_step hstep hc)
      exact stuck_step ht' he' hclean hstep

/-- A cleanup lets the insertion succeed, however late. -/
theorem run_cleanup (ht : ⟨e, .inserting⟩ ∈ s.tasks) (hopen : cfg.isHa = false → s.routerRuns = true) :
    ∃ s', Run cfg s s' ∧ e ∈ s'.forwarded := by
  obtain ⟨l, l', htask⟩ := List.append_of_mem ht
  refine ⟨_, ((Relation.ReflTransGen.single (Step.cleanup (e.timestamp + 1))).tail
    (Step.insert htask fun r hr hkey => ?_)).tail (Step.forward rfl hopen),
    List.mem_append_right _ List.mem_cons_self⟩
  -- what is left is later than the event
  obtain ⟨-, hlater⟩ := List.mem_filter.mp hr
  have hsame : r.timestamp = e.timestamp := congrArg Prod.snd hkey
  rw [hsame, decide_eq_true (by omega)] at hlater
  cases hlater

/-- **What has become of every event**, in every run, with every database and every order of the
tasks; and an event whose insertion has been reported as failed after it was carried out stays where
it is, until a cleanup deletes its row, and then it can be forwarded. -/
theorem events_handled (h : Run cfg .init s) :
    AllHandled cfg s ∧ ∀ e, ⟨e, .inserting⟩ ∈ s.tasks → e ∈ s.rows →
      (∀ s', Run cfg s s' → ¬ s'.Cleaned e →
        ⟨e, .inserting⟩ ∈ s'.tasks ∧ e ∉ s'.forwarded ∧ s'.targets e = []) ∧
      ((cfg.isHa = false → s.routerRuns = true) → ∃ s', Run cfg s s' ∧ e ∈ s'.forwarded) := by
  have hall : ∀ {s'}, Run cfg .init s' → AllHandled cfg s' := by
    intro s' h
    induction h with
    | refl => exact allHandled_init
    | tail _ hstep ih => exact ih.next hstep
  refine ⟨hall h, fun e ht he => ⟨fun s' h' hclean => ?_, run_cleanup ht⟩⟩
  obtain ⟨ht', -⟩ := stuck_run ht he h' hclean
  obtain ⟨-, -, hforwarded, htargets⟩ := (hall (h.trans h')).handled _ ht'
  exact ⟨ht', List.count_eq_zero.mp hforwarded, htargets⟩

/-- An IP is blacklisted. -/
def blacklistedEvent : Event :=
  ⟨"b", 1, .warning, .ipBlacklisted, some "1.2.3.4", some 3600, none⟩

def storingConfig : ListenerConfig := ⟨false, 0, none, none, none⟩

/-- The row of the event is there, and the task does not know it. -/
def stuckListener : EventListener :=
  ⟨[⟨blacklistedEvent, .inserting⟩], [blacklistedEvent], [], [], true, []⟩

/-- The router, and so the handler of the blacklist, does not get this event before a cleanup. -/
theorem events_handled_stuck : Run storingConfig .init stuckListener ∧
    (∀ s', Run storingConfig stuckListener s' → ¬ s'.Cleaned blacklistedEvent →
      ⟨blacklistedEvent, .inserting⟩ ∈ s'.tasks ∧
      blacklistedEvent ∉ s'.forwarded ∧ s'.targets blacklistedEvent = []) ∧
    ∃ s', Run storingConfig stuckListener s' ∧ blacklistedEvent ∈ s'.forwarded := by
  have hsend : Step storingConfig .init ⟨[⟨blacklistedEvent, .queued⟩], [], [], [], true, []⟩ :=
    Step.send fun t ht => absurd ht List.not_mem_nil
  have hspawn : Step storingConfig ⟨[⟨blacklistedEvent, .queued⟩], [], [], [], true, []⟩
      ⟨[⟨blacklistedEvent, .inserting⟩], [], [], [], true, []⟩ :=
    Step.spawn (l := []) rfl fun t ht => absurd ht List.not_mem_nil
  have hlost : Step storingConfig ⟨[⟨blacklistedEvent, .inserting⟩], [], [], [], true, []⟩
      stuckListener :=
    Step.insertLost (l := []) rfl fun r hr => absurd hr List.not_mem_nil
  have hrun := ((Relation.ReflTransGen.single hsend).tail hspawn).tail hlost
  obtain ⟨hstuck, hcleaned⟩ := (events_handled hrun).2 _ List.mem_cons_self List.mem_cons_self
  exact ⟨hrun, hstuck, hcleaned fun _ => rfl⟩

/-! ### The order in which they are forwarded -/

/-- The tasks of the events `es`, in the stages `f`. -/
def tasksAt (es : List Event) (f : Event → EventStage) : List EventTask := es.map fun e => ⟨e, f e⟩

/-- The task of one of the events is anywhere among them. -/
theorem tasksAt_split {f : Event → EventStage} (hes : es.Nodup) (he : e ∈ es) :
    ∃ l l', ∀ g : Event → EventStage, (∀ e', e' ≠ e → g e' = f e') →
      tasksAt es g = l ++ ⟨e, g e⟩ :: l' := by
  obtain ⟨before, after, rfl⟩ := List.append_of_mem he
  obtain ⟨hnot, -⟩ := List.nodup_cons.mp (List.nodup_middle.mp hes)
  refine ⟨tasksAt before f, tasksAt after f, fun g hg => ?_⟩
  have hsame : ∀ es', (∀ e' ∈ es', e' ∈ before ++ after) → tasksAt es' g = tasksAt es' f := by
    intro es' hsub
    apply List.map_congr_left
    intro e' he'
    rw [hg e' fun h => hnot (h ▸ hsub e' he')]
  rw [tasksAt, List.map_append, List.map_cons]
  show tasksAt before g ++ _ :: tasksAt after g = _
  rw [hsame before fun _ => List.mem_append_left _, hsame after fun _ => List.mem_append_right _]

theorem run_sends (hes : (es.map eventKey).Nodup) :
    Run cfg .init ⟨tasksAt es fun _ => .queued, [], [], [], true, []⟩ := by
  induction es using List.reverseRecOn with
  | nil => exact .refl
  | append_singleton es e ih =>
      rw [List.map_append, List.nodup_append] at hes
      have happend : tasksAt (es ++ [e]) (fun _ => .queued) =
          tasksAt es (fun _ => .queued) ++ [⟨e, .queued⟩] := List.map_append
      apply (ih hes.1).tail
      rw [happend]
      apply Step.send
      intro t ht
      obtain ⟨e', he', rfl⟩ := List.mem_map.mp ht
      exact hes.2.2 _ (List.mem_map_of_mem he') _ List.mem_cons_self

/-- All tasks are spawned and, if they have to, insert their event. -/
theorem run_inserts (done es : List Event) (hes : ((done ++ es).map eventKey).Nodup) :
    Run cfg ⟨tasksAt done (fun _ => .forwarding) ++ tasksAt es (fun _ => .queued),
        done.filter cfg.persists, [], [], true, []⟩
      ⟨tasksAt (done ++ es) fun _ => .forwarding, (done ++ es).filter cfg.persists, [], [], true, []⟩
    := by
  induction es generalizing done with
  | nil =>
      show Run cfg ⟨_ ++ [], _, _, _, _, _⟩ _
      rw [List.append_nil, List.append_nil]
  | cons e es ih =>
      have hfirst : ∀ t ∈ tasksAt done fun _ => .forwarding, t.stage ≠ .queued := by
        intro t ht
        obtain ⟨e', -, rfl⟩ := List.mem_map.mp ht
        exact EventStage.noConfusion
      have htasks : tasksAt (done ++ [e]) (fun _ => .forwarding) =
          tasksAt done (fun _ => .forwarding) ++ [⟨e, .forwarding⟩] := List.map_append
      have hrun := ih (done ++ [e])
      rw [htasks, List.append_assoc, List.append_assoc, List.singleton_append] at hrun
      apply Relation.ReflTransGen.head (Step.spawn rfl hfirst)
      cases hp : cfg.persists e with
      | false =>
          rw [List.filter_append, List.filter_singleton, hp, cond_false, List.append_nil] at hrun
          exact hrun hes
      | true =>
          rw [List.filter_append, List.filter_singleton, hp, cond_true] at hrun
          apply Relation.ReflTransGen.head _ (hrun hes)
          apply Step.insert rfl
          -- the rows are those of events that were sent before
          intro r hr
          rw [List.map_append, List.nodup_append] at hes
          exact hes.2.2 _ (List.mem_map_of_mem (List.mem_of_mem_filter hr)) _ List.mem_cons_self

/-- The stages while the events are forwarded, when some of them are done. -/
def stageAfter (done : List Event) (e : Event) : EventStage :=
  if e ∈ done then .finished else .forwarding

/-- The tasks forward their events and send the notifications, in the order `l`. -/
theorem run_forwards {rows : List Event} (hes : es.Nodup) (done l : List Event)
    (hl : (done ++ l).Nodup) (hsub : ∀ e ∈ l, e ∈ es) (notified : List (Event × NotifyTarget)) :
    ∃ notified', Run cfg ⟨tasksAt es (stageAfter done), rows, done, notified, true, []⟩
      ⟨tasksAt es (stageAfter (done ++ l)), rows, done ++ l, notified', true, []⟩ := by
  induction l generalizing done notified with
  | nil =>
      rw [List.append_nil]
      exact ⟨notified, .refl⟩
  | cons e l ih =>
      have hdone : e ∉ done := fun h =>
        (List.nodup_append.mp hl).2.2 e h e List.mem_cons_self rfl
      obtain ⟨before, after, hsplit⟩ :=
        tasksAt_split (f := stageAfter done) hes (hsub e List.mem_cons_self)
      have hold := hsplit _ fun _ _ => rfl
      have hnew := hsplit (stageAfter (done ++ [e])) (by
        intro e' hne
        have hiff : e' ∈ done ++ [e] ↔ e' ∈ done := by
          rw [List.mem_append, List.mem_singleton, or_iff_left hne]
        exact if_congr hiff rfl rfl)
      have hforwarding : stageAfter done e = .forwarding := if_neg hdone
      have hfinished : stageAfter (done ++ [e]) e = .finished :=
        if_pos (List.mem_append_right _ List.mem_cons_self)
      rw [hforwarding] at hold
      rw [hfinished] at hnew
      rw [List.append_cons] at hl
      obtain ⟨notified', hrun⟩ := ih (done ++ [e]) hl
        (fun e' he' => hsub e' (List.mem_cons_of_mem _ he')) (notified ++ (cfg.send e).map (e, ·))
      apply Exists.intro notified'
      rw [List.append_cons]
      rw [hnew] at hrun
      apply Relation.ReflTransGen.head (Step.forward hold fun _ => rfl)
      exact Relation.ReflTransGen.head (Step.notify rfl (List.Sublist.refl _)) hrun

/-- **Nothing keeps the events in order**: whatever order they are sent in, the listener can forward
them in any other one. -/
theorem events_any_order {es l : List Event} (hes : (es.map eventKey).Nodup) (hl : l.Perm es) :
    ∃ s, Run cfg .init s ∧ s.tasks = tasksAt es (fun _ => .finished) ∧ s.forwarded = l ∧
      s.rows = es.filter cfg.persists := by
  have hnodup : es.Nodup := hes.of_map
  have hinserts : Run cfg ⟨tasksAt es fun _ => .queued, [], [], [], true, []⟩
      ⟨tasksAt es fun _ => .forwarding, es.filter cfg.persists, [], [], true, []⟩ :=
    run_inserts [] es hes
  obtain ⟨notified, hforwards⟩ := run_forwards hnodup [] l (hl.nodup_iff.mpr hnodup)
    (fun e he => hl.mem_iff.mp he) []
  apply Exists.intro _
  apply And.intro (((run_sends hes).trans hinserts).trans hforwards)
  apply And.intro _ ⟨rfl, rfl⟩
  apply List.map_congr_left
  intro e he
  have hfinished : stageAfter l e = .finished := if_pos (hl.mem_iff.mpr he)
  show EventTask.mk e (stageAfter l e) = _
  rw [hfinished]

/-- The IP is taken off the blacklist again. -/
def removedEvent : Event := ⟨"r", 2, .notice, .ipBlacklistRemoved, some "1.2.3.4", none, none⟩

/-- The router can hear first that the IP is taken off the blacklist, and then that it is put on. -/
theorem events_any_order_blacklist : ∃ s, Run storingConfig .init s ∧
    s.tasks = tasksAt [blacklistedEvent, removedEvent] (fun _ => .finished) ∧
    s.forwarded = [removedEvent, blacklistedEvent] ∧
    s.rows = [blacklistedEvent, removedEvent] :=
  events_any_order (by decide) (.swap _ _ _)

end EventListener

end Rauthy
