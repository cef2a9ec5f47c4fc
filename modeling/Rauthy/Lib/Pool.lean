/-
Rauthy/Lib/Pool.lean

Interleaved runs of programs.  A pool is a world, the requests in flight (each
the rest of its program) and a log of what happened, newest event first.  A step
starts a request, lets one request in flight do one operation, or ends a request
whose program is over; a request that is never scheduled again stands for one
that was cancelled.

`Run C` are the runs all of whose steps satisfy a condition `C`.

Main results:
  * `Run.sound`: invariants of all interleavings from one `wp` for each request;
  * `Run.sequential`: invariants of the runs that do one request after the other
    from one `Exec` inversion for each request;
  * `Run.inv_of_seen`: invariants of all interleavings from what each request has seen
    of the world by its own operations;
  * `run_of_moves`: a schedule that evaluates is a run.
-/
import Mathlib.Logic.Function.Basic
import Rauthy.Lib.Prog

/-- What the log records: request `t` starts, does one operation, or ends. -/
inductive Event (Q O : Type) (R : O → Type) (A : Type) where
  | start (t : ℕ) (q : Q)
  | op (t : ℕ) (o : O) (x : R o)
  | done (t : ℕ) (a : A)

namespace Event

variable {Q O A : Type} {R : O → Type}

/-- The request an event belongs to. -/
def tid : Event Q O R A → ℕ
  | start t _ => t
  | op t _ _ => t
  | done t _ => t

@[simp] theorem tid_start (t : ℕ) (q : Q) : (start t q : Event Q O R A).tid = t := rfl

@[simp] theorem tid_op (t : ℕ) (o : O) (x : R o) : (op t o x : Event Q O R A).tid = t := rfl

@[simp] theorem tid_done (t : ℕ) (a : A) : (done t a : Event Q O R A).tid = t := rfl

end Event

/-- A log, newest event first. -/
abbrev Log (Q O : Type) (R : O → Type) (A : Type) := List (Event Q O R A)

namespace Log

variable {Q O A : Type} {R : O → Type}

/-- No event of the log belongs to request `t`. -/
def Fresh (t : ℕ) (l : Log Q O R A) : Prop := ∀ e ∈ l, e.tid ≠ t

instance (t : ℕ) (l : Log Q O R A) : Decidable (Fresh t l) :=
  inferInstanceAs (Decidable (∀ e ∈ l, e.tid ≠ t))

/-- Request `t` has started and not ended. -/
def Running (t : ℕ) (l : Log Q O R A) : Prop :=
  (∃ q, Event.start t q ∈ l) ∧ ∀ a, Event.done t a ∉ l

/-- Each event of the log satisfies `P` relative to the log before it. -/
def Always (P : Event Q O R A → Log Q O R A → Prop) : Log Q O R A → Prop
  | [] => True
  | e :: l => P e l ∧ Always P l

variable {t t' : ℕ} {l l' : Log Q O R A}
  {P : Event Q O R A → Log Q O R A → Prop} {e : Event Q O R A}

@[simp] theorem always_nil :
    Always P ([] : Log Q O R A) := trivial

@[simp] theorem always_cons :
    Always P (e :: l) ↔ P e l ∧ Always P l := Iff.rfl

theorem Always.mono {P' : Event Q O R A → Log Q O R A → Prop} (h : Always P l)
    (hP : ∀ e l, P e l → P' e l) : Always P' l := by
  induction l with
  | nil => trivial
  | cons e l ih => exact ⟨hP _ _ h.1, ih h.2⟩

theorem Always.of_suffix (h : Always P l) (hs : (e :: l') <:+ l) : P e l' := by
  obtain ⟨m, rfl⟩ := hs
  induction m with
  | nil => exact h.1
  | cons a m ih => exact ih h.2

/-- An event of a log that is split at another one is that one, or comes after or before
it. -/
theorem split_cases {f : Event Q O R A} {l₂ l₁ m₂ m₁ : Log Q O R A}
    (h : l₂ ++ e :: l₁ = m₂ ++ f :: m₁) :
    (e = f ∧ l₁ = m₁) ∨ (e ∈ m₂ ∧ ∃ r, l₁ = r ++ f :: m₁) ∨ ∃ r, m₁ = r ++ e :: l₁ := by
  rcases List.append_eq_append_iff.mp h with ⟨r, hm, hl⟩ | ⟨r, hm, hl⟩
  · rcases r with - | ⟨a, r⟩
    · obtain ⟨rfl, rfl⟩ := List.cons.inj hl
      exact .inl ⟨rfl, rfl⟩
    · obtain ⟨rfl, rfl⟩ := List.cons.inj hl
      exact .inr (.inl ⟨by rw [hm]; simp, r, rfl⟩)
  · rcases r with - | ⟨a, r⟩
    · obtain ⟨rfl, rfl⟩ := List.cons.inj hl
      exact .inl ⟨rfl, rfl⟩
    · obtain ⟨rfl, rfl⟩ := List.cons.inj hl
      exact .inr (.inr ⟨r, rfl⟩)

/-! Reading a log -/

/-- The request that `t` is, if it has started. -/
def startOf (t : ℕ) : Log Q O R A → Option Q
  | [] => none
  | .start t' q :: l => if t' = t then some q else startOf t l
  | .op _ _ _ :: l => startOf t l
  | .done _ _ :: l => startOf t l

/-- The answer of request `t`, if it has ended. -/
def doneOf (t : ℕ) : Log Q O R A → Option A
  | [] => none
  | .start _ _ :: l => doneOf t l
  | .op _ _ _ :: l => doneOf t l
  | .done t' a :: l => if t' = t then some a else doneOf t l

/-- The request that has just ended, and its answer. -/
def justDone : Log Q O R A → Option (ℕ × A)
  | .done t a :: _ => some (t, a)
  | _ => none

theorem mem_of_startOf {q : Q} (h : startOf t l = some q) : .start t q ∈ l := by
  induction l with
  | nil => cases h
  | cons e l ih =>
      cases e with
      | start t' q' =>
          simp only [startOf] at h
          split at h
          · next ht => cases h; rw [ht]; exact List.mem_cons_self
          · exact List.mem_cons_of_mem _ (ih h)
      | op t' o x => exact List.mem_cons_of_mem _ (ih h)
      | done t' a => exact List.mem_cons_of_mem _ (ih h)

theorem mem_of_doneOf {a : A} (h : doneOf t l = some a) : .done t a ∈ l := by
  induction l with
  | nil => cases h
  | cons e l ih =>
      cases e with
      | start t' q => exact List.mem_cons_of_mem _ (ih h)
      | op t' o x => exact List.mem_cons_of_mem _ (ih h)
      | done t' a' =>
          simp only [doneOf] at h
          split at h
          · next ht => cases h; rw [ht]; exact List.mem_cons_self
          · exact List.mem_cons_of_mem _ (ih h)

theorem startOf_isSome : (startOf t l).isSome ↔ ∃ q, .start t q ∈ l := by
  induction l with
  | nil => simp [startOf]
  | cons e l ih =>
      cases e with
      | start t' q =>
          by_cases ht : t' = t
          · simp [startOf, ht]
          · simp [startOf, ht, ih, Ne.symm ht]
      | op t' o x => simp [startOf, ih]
      | done t' a => simp [startOf, ih]

theorem doneOf_isSome : (doneOf t l).isSome ↔ ∃ a, .done t a ∈ l := by
  induction l with
  | nil => simp [doneOf]
  | cons e l ih =>
      cases e with
      | start t' q => simp [doneOf, ih]
      | op t' o x => simp [doneOf, ih]
      | done t' a =>
          by_cases ht : t' = t
          · simp [doneOf, ht]
          · simp [doneOf, ht, ih, Ne.symm ht]

theorem eq_of_justDone {a : A} (h : justDone l = some (t, a)) : l = .done t a :: l.tail := by
  rcases l with - | ⟨e, l⟩
  · cases h
  · cases e <;> cases h
    rfl

instance (t : ℕ) (l : Log Q O R A) : Decidable (Running t l) :=
  decidable_of_iff ((startOf t l).isSome ∧ ¬ (doneOf t l).isSome) (by
    rw [startOf_isSome, doneOf_isSome, not_exists]; rfl)

end Log

/-- A world, the requests in flight and what happened so far. -/
structure Pool (Q O : Type) (R : O → Type) (W ε α : Type) where
  world : W
  threads : ℕ → Option (Prog O R ε α)
  log : Log Q O R (Except ε α)

namespace Pool

variable {Q O : Type} {R : O → Type} {W ε α : Type}

/-- Nothing has happened yet. -/
def init (w : W) : Pool Q O R W ε α := ⟨w, fun _ => none, []⟩

/-- No request is in flight. -/
def Idle (P : Pool Q O R W ε α) : Prop := ∀ t, P.threads t = none

/-- A new request comes in. -/
def startThread (prog : Q → Prog O R ε α) (P : Pool Q O R W ε α) (t : ℕ) (q : Q) :
    Pool Q O R W ε α :=
  ⟨P.world, Function.update P.threads t (some (prog q)), .start t q :: P.log⟩

/-- Request `t` has done the operation `o`, was answered `x`, and goes on with `p`. -/
def opThread (P : Pool Q O R W ε α) (t : ℕ) (o : O) (x : R o) (w : W)
    (p : Prog O R ε α) : Pool Q O R W ε α :=
  ⟨w, Function.update P.threads t (some p), .op t o x :: P.log⟩

/-- Request `t` ends. -/
def endThread (P : Pool Q O R W ε α) (t : ℕ) (a : Except ε α) : Pool Q O R W ε α :=
  ⟨P.world, Function.update P.threads t none, .done t a :: P.log⟩

section Step

variable (prog : Q → Prog O R ε α) (sem : (o : O) → W → R o → W → Prop)

/-- One step of the pool, labelled with the event it logs. -/
inductive Step : Pool Q O R W ε α → Event Q O R (Except ε α) → Pool Q O R W ε α → Prop
  | start {P : Pool Q O R W ε α} {t : ℕ} (q : Q) (ht : Log.Fresh t P.log) :
      Step P (.start t q) (P.startThread prog t q)
  | op {P : Pool Q O R W ε α} {t : ℕ} {o : O} {k : R o → Prog O R ε α} {x : R o} {w : W}
      (ht : P.threads t = some (.call o k)) (hx : sem o P.world x w) :
      Step P (.op t o x) (P.opThread t o x w (k x))
  | ret {P : Pool Q O R W ε α} {t : ℕ} {a : α} (ht : P.threads t = some (.ret a)) :
      Step P (.done t (.ok a)) (P.endThread t (.ok a))
  | fail {P : Pool Q O R W ε α} {t : ℕ} {e : ε} (ht : P.threads t = some (.fail e)) :
      Step P (.done t (.error e)) (P.endThread t (.error e))

/-- The runs from `P₀` each of whose steps satisfies the condition `C` on the
world and log before it and the event it logs. -/
inductive Run (C : W → Log Q O R (Except ε α) → Event Q O R (Except ε α) → Prop)
    (P₀ : Pool Q O R W ε α) : Pool Q O R W ε α → Prop
  | refl : Run C P₀ P₀
  | step {P P' : Pool Q O R W ε α} {e : Event Q O R (Except ε α)} (h : Run C P₀ P)
      (hs : Step prog sem P e P') (hC : C P.world P.log e) : Run C P₀ P'

/-- One request after the other: a request starts only when none is in flight. -/
def OneByOne (_ : W) (l : Log Q O R (Except ε α)) (e : Event Q O R (Except ε α)) : Prop :=
  ∀ t q, e = .start t q → ∀ t', ¬ Log.Running t' l

end Step

variable {prog : Q → Prog O R ε α} {sem : (o : O) → W → R o → W → Prop}
  {C C' : W → Log Q O R (Except ε α) → Event Q O R (Except ε α) → Prop}
  {l : Log Q O R (Except ε α)} {t t' : ℕ} {q : Q} {o : O} {P₀ P : Pool Q O R W ε α} {w₀ : W}
  {β : Type} {A : Q → (o : O) → R o → Prop} {I : W → Log Q O R (Except ε α) → Prop}

theorem oneByOne_start {w : W} :
    OneByOne w l (.start t q) ↔ ∀ e ∈ l, ¬ Log.Running e.tid l := by
  constructor
  · exact fun h e _ => h t q rfl e.tid
  · rintro h t' q' - t'' ⟨⟨q'', hm⟩, hno⟩
    exact h _ hm ⟨⟨q'', hm⟩, hno⟩

instance (w : W) (l : Log Q O R (Except ε α)) (e : Event Q O R (Except ε α)) :
    Decidable (OneByOne w l e) :=
  match e with
  | .start _ _ => decidable_of_iff (∀ e ∈ l, ¬ Log.Running e.tid l) oneByOne_start.symm
  | .op _ _ _ => .isTrue (by simp [OneByOne])
  | .done _ _ => .isTrue (by simp [OneByOne])

/-- No other request is in flight when a request does an operation. -/
def Solo (_ : W) (l : Log Q O R (Except ε α)) (e : Event Q O R (Except ε α)) : Bool :=
  match e with
  | .op t _ _ => l.all fun e' => e'.tid == t || !decide (Log.Running e'.tid l)
  | _ => true

theorem not_running_of_solo {w : W} {x : R o} (h : Solo w l (.op t o x) = true) (hne : t' ≠ t) :
    ¬ Log.Running t' l := by
  intro hr
  obtain ⟨q, hq⟩ := hr.1
  have := List.all_eq_true.mp h _ hq
  simp [hne, hr] at this

/-- A run with the operations of one semantics is a run with those of a weaker one. -/
theorem Run.of_sem {sem' : (o : O) → W → R o → W → Prop} (h : Run prog sem C P₀ P)
    (hsem : ∀ o w x w', sem o w x w' → sem' o w x w') :
    Run prog sem' C P₀ P := by
  induction h with
  | refl => exact .refl
  | step _ hs hC ih =>
      refine .step ih ?_ hC
      cases hs with
      | start q ht => exact .start q ht
      | op ht hx => exact .op ht (hsem _ _ _ _ hx)
      | ret ht => exact .ret ht
      | fail ht => exact .fail ht

/-! ### The requests in flight are those the log says are running -/

/-- The log and the threads agree on which requests are in flight, and a request
that the log does not mention has not been started. -/
structure Consistent (P : Pool Q O R W ε α) : Prop where
  running : ∀ t, Log.Running t P.log ↔ P.threads t ≠ none
  mentioned : ∀ e ∈ P.log, ∃ q, Event.start e.tid q ∈ P.log

theorem Consistent.init (w : W) : Consistent (Pool.init w : Pool Q O R W ε α) where
  running t := by simp [Pool.init, Log.Running]
  mentioned := by simp [Pool.init]

theorem Step.consistent {P' : Pool Q O R W ε α} {e : Event Q O R (Except ε α)}
    (hs : Step prog sem P e P') (h : Consistent P) : Consistent P' := by
  -- ending a request: the thread is gone and the log says so
  have hend : ∀ (t : ℕ) (a : Except ε α) (p : Prog O R ε α), P.threads t = some p →
      Consistent (P.endThread t a) := by
    intro t a p ht
    have hrun := (h.running t).mpr (by simp [ht])
    refine ⟨fun t' => ?_, ?_⟩
    · by_cases htt : t' = t
      · subst htt
        simp only [endThread, Function.update_self, ne_eq, not_true_eq_false, iff_false]
        rintro ⟨-, hno⟩
        exact hno a List.mem_cons_self
      · simp only [endThread, ne_eq, htt, not_false_eq_true, Function.update_of_ne]
        rw [← ne_eq, ← h.running t']
        simp [Log.Running, htt]
    · rintro e he
      rcases List.mem_cons.mp he with rfl | he
      · obtain ⟨⟨q, hq⟩, -⟩ := hrun
        exact ⟨q, List.mem_cons_of_mem _ hq⟩
      · obtain ⟨q, hq⟩ := h.mentioned e he
        exact ⟨q, List.mem_cons_of_mem _ hq⟩
  cases hs with
  | start q ht =>
      rename_i t
      refine ⟨fun t' => ?_, ?_⟩
      · by_cases htt : t' = t
        · subst htt
          have hno : ∀ a, Event.done t' a ∉ P.log := fun a ha => ht _ ha rfl
          simp [startThread, Log.Running, hno]
        · simp only [startThread, ne_eq, htt, not_false_eq_true, Function.update_of_ne]
          rw [← ne_eq, ← h.running t']
          simp [Log.Running, htt]
      · rintro e he
        rcases List.mem_cons.mp he with rfl | he
        · exact ⟨q, List.mem_cons_self⟩
        · obtain ⟨q, hq⟩ := h.mentioned e he
          exact ⟨q, List.mem_cons_of_mem _ hq⟩
  | op ht hx =>
      rename_i t o k x w
      have hrun := (h.running t).mpr (by simp [ht])
      refine ⟨fun t' => ?_, ?_⟩
      · by_cases htt : t' = t
        · subst htt
          simpa [opThread, Log.Running] using hrun
        · simp only [opThread, ne_eq, htt, not_false_eq_true, Function.update_of_ne]
          rw [← ne_eq, ← h.running t']
          simp [Log.Running]
      · rintro e he
        rcases List.mem_cons.mp he with rfl | he
        · obtain ⟨⟨q, hq⟩, -⟩ := hrun
          exact ⟨q, List.mem_cons_of_mem _ hq⟩
        · obtain ⟨q, hq⟩ := h.mentioned e he
          exact ⟨q, List.mem_cons_of_mem _ hq⟩
  | ret ht => exact hend _ _ _ ht
  | fail ht => exact hend _ _ _ ht

theorem Run.consistent (h : Run prog sem C P₀ P) (h₀ : Consistent P₀) : Consistent P := by
  induction h with
  | refl => exact h₀
  | step _ hs _ ih => exact hs.consistent ih

/-- A request is started only once. -/
theorem Run.start_unique (h : Run prog sem C (init w₀) P) {q' : Q} (hq : .start t q ∈ P.log)
    (hq' : .start t q' ∈ P.log) : q = q' := by
  induction h with
  | refl => simp [init] at hq
  | step hrun hs _ ih =>
      cases hs with
      | start q₁ ht =>
          rcases List.mem_cons.mp hq with h₁ | h₁
          · rcases List.mem_cons.mp hq' with h₂ | h₂
            · cases h₁
              cases h₂
              rfl
            · cases h₁
              exact absurd rfl (ht _ h₂)
          · rcases List.mem_cons.mp hq' with h₂ | h₂
            · cases h₂
              exact absurd rfl (ht _ h₁)
            · exact ih h₁ h₂
      | op _ _ =>
          exact ih ((List.mem_cons.mp hq).resolve_left (by simp))
            ((List.mem_cons.mp hq').resolve_left (by simp))
      | ret _ =>
          exact ih ((List.mem_cons.mp hq).resolve_left (by simp))
            ((List.mem_cons.mp hq').resolve_left (by simp))
      | fail _ =>
          exact ih ((List.mem_cons.mp hq).resolve_left (by simp))
            ((List.mem_cons.mp hq').resolve_left (by simp))

/-! ### All interleavings -/

/-- The operations of request `t`, on the world together with the log. -/
def logged (sem : (o : O) → W → R o → W → Prop)
    (C : W → Log Q O R (Except ε α) → Event Q O R (Except ε α) → Prop) (t : ℕ) (o : O)
    (s : W × Log Q O R (Except ε α)) (x : R o) (s' : W × Log Q O R (Except ε α)) : Prop :=
  sem o s.1 x s'.1 ∧ C s.1 s.2 (.op t o x) ∧ s'.2 = .op t o x :: s.2

/-- A step respects what the other requests in flight rely on. -/
def Others (Rl : ℕ → W × Log Q O R (Except ε α) → W × Log Q O R (Except ε α) → Prop)
    (t : ℕ) (s s' : W × Log Q O R (Except ε α)) : Prop :=
  ∀ t', t' ≠ t → Log.Running t' s.2 → Rl t' s s'

section Sound

variable {I : W × Log Q O R (Except ε α) → Prop}
  {L : ℕ → W × Log Q O R (Except ε α) → W × Log Q O R (Except ε α) → Prop}
  {F : ℕ → Except ε α → W × Log Q O R (Except ε α) → Prop} (hrefl : ∀ t s, L t s s)
  (htrans : ∀ t s₁ s₂ s₃, L t s₁ s₂ → L t s₂ s₃ → L t s₁ s₃) (hinit : I (w₀, []))
  (hstart : ∀ w l t q, I (w, l) → Log.Fresh t l → C w l (.start t q) →
    I (w, .start t q :: l) ∧ Others L t (w, l) (w, .start t q :: l) ∧
    (prog q).wp (logged sem C t) I (L t) (Others L t) (F t) (w, .start t q :: l))
  (hdone : ∀ w l t a, I (w, l) → Log.Running t l → F t a (w, l) → C w l (.done t a) →
    I (w, .done t a :: l) ∧ Others L t (w, l) (w, .done t a :: l))

include hrefl htrans hinit hstart hdone

/-- **Soundness of the weakest preconditions.**  If each request, once started,
satisfies its precondition, and its end keeps the invariant, then the invariant
holds in every interleaving and every request in flight still satisfies the
precondition of the rest of its program. -/
theorem Run.sound (h : Run prog sem C (init w₀) P) :
    I (P.world, P.log) ∧ ∀ t p, P.threads t = some p →
      p.wp (logged sem C t) I (L t) (Others L t) (F t) (P.world, P.log) := by
  induction h with
  | refl => exact ⟨hinit, by simp [init]⟩
  | @step P P' e hrun hs hC ih =>
      obtain ⟨hI, hT⟩ := ih
      have hcons : Consistent P := hrun.consistent (.init w₀)
      -- the requests other than the one that moves only see its guarantee
      have hother : ∀ (t : ℕ) (s' : W × Log Q O R (Except ε α)),
          Others L t (P.world, P.log) s' → ∀ t' p, t' ≠ t → P.threads t' = some p →
          p.wp (logged sem C t') I (L t') (Others L t') (F t') s' := by
        intro t s' hG t' p htt hp
        have hr := (hcons.running t').mpr (by simp [hp])
        exact Prog.wp_stable (htrans t') (hT t' p hp) (hG t' htt hr)
      -- a program that is over satisfies its postcondition
      have hend : ∀ (t : ℕ) (a : Except ε α) (p : Prog O R ε α), P.threads t = some p →
          F t a (P.world, P.log) → C P.world P.log (.done t a) →
          I (P.world, (P.endThread t a).log) ∧
          ∀ t' p, (P.endThread t a).threads t' = some p →
            p.wp (logged sem C t') I (L t') (Others L t') (F t')
              (P.world, (P.endThread t a).log) := by
        intro t a p ht hpost hC
        obtain ⟨hI', hG⟩ := hdone _ _ _ _ hI ((hcons.running t).mpr (by simp [ht])) hpost hC
        refine ⟨hI', fun t' p' hp' => ?_⟩
        by_cases htt : t' = t
        · subst htt
          simp [endThread] at hp'
        · simp only [endThread, ne_eq, htt, not_false_eq_true, Function.update_of_ne] at hp'
          exact hother t _ hG t' p' htt hp'
      cases hs with
      | start q ht =>
          rename_i t
          obtain ⟨hI', hG, hwp⟩ := hstart _ _ _ q hI ht hC
          refine ⟨hI', fun t' p hp => ?_⟩
          by_cases htt : t' = t
          · subst htt
            simp only [startThread, Function.update_self, Option.some.injEq] at hp
            subst hp
            exact hwp
          · simp only [startThread, ne_eq, htt, not_false_eq_true, Function.update_of_ne] at hp
            exact hother t _ hG t' p htt hp
      | op ht hx =>
          rename_i t o k x w
          obtain ⟨hI', hG, hwp⟩ := hT t _ ht _ (hrefl t _) hI x (w, .op t o x :: P.log)
            ⟨hx, hC, rfl⟩
          refine ⟨hI', fun t' p hp => ?_⟩
          by_cases htt : t' = t
          · subst htt
            simp only [opThread, Function.update_self, Option.some.injEq] at hp
            subst hp
            exact hwp
          · simp only [opThread, ne_eq, htt, not_false_eq_true, Function.update_of_ne] at hp
            exact hother t _ hG t' p htt hp
      | ret ht => exact hend _ _ _ ht (hT _ _ ht _ (hrefl _ _) hI) hC
      | fail ht => exact hend _ _ _ ht (hT _ _ ht _ (hrefl _ _) hI) hC

/-- Under the hypotheses of `Run.sound`, every answer satisfies the postcondition of its
request. -/
theorem Run.sound_post (h : Run prog sem C (init w₀) P) :
    Log.Always (fun e l => ∀ t a, e = .done t a → ∃ w, I (w, l) ∧ F t a (w, l)) P.log := by
  induction h with
  | refl => trivial
  | @step P P' e hrun hs hC ih =>
      obtain ⟨hI, hT⟩ := Run.sound hrefl htrans hinit hstart hdone hrun
      cases hs with
      | start q ht => exact ⟨(fun t a he => by cases he), ih⟩
      | op ht hx => exact ⟨(fun t a he => by cases he), ih⟩
      | ret ht =>
          refine ⟨fun t a he => ?_, ih⟩
          cases he
          exact ⟨P.world, hI, hT _ _ ht _ (hrefl _ _) hI⟩
      | fail ht =>
          refine ⟨fun t a he => ?_, ih⟩
          cases he
          exact ⟨P.world, hI, hT _ _ ht _ (hrefl _ _) hI⟩

end Sound

/-- **An invariant that every request keeps** holds in every interleaving, and what a request
returns is what it keeps to. -/
theorem Run.keeps {I : W → Prop} {F : Q → α → Prop} (hinit : I w₀)
    (hreq : ∀ w l t q, C w l (.start t q) → Prog.Keeps sem I (prog q) (F q))
    (h : Run prog sem C (init w₀) P) :
    I P.world ∧ (∀ t p, P.threads t = some p → ∃ q, .start t q ∈ P.log ∧ Prog.Keeps sem I p (F q)) ∧
      ∀ t a, .done t (.ok a) ∈ P.log → ∃ q, .start t q ∈ P.log ∧ F q a := by
  induction h with
  | refl => exact ⟨hinit, fun t p hp => by simp [init] at hp, fun t a ha => by simp [init] at ha⟩
  | @step P P' e _ hs hC ih =>
      obtain ⟨hI, hthreads, hdone⟩ := ih
      have hlater : ∀ (e : Event Q O R (Except ε α)) t (F' : Q → Prop),
          (∃ q, .start t q ∈ P.log ∧ F' q) → ∃ q, .start t q ∈ e :: P.log ∧ F' q :=
        fun e t F' ⟨q, hq, hF⟩ => ⟨q, List.mem_cons_of_mem _ hq, hF⟩
      cases hs with
      | @start t q ht =>
          refine ⟨hI, fun t' p hp => ?_, fun t' a ha => ?_⟩
          · simp only [startThread, Function.update_apply] at hp
            split at hp
            · next he =>
                cases hp
                exact ⟨q, by rw [he]; exact List.mem_cons_self, hreq _ _ t q hC⟩
            · exact hlater _ _ _ (hthreads t' p hp)
          · exact hlater _ _ _ (hdone t' a ((List.mem_cons.mp ha).resolve_left (by simp)))
      | @op t o k x w ht hx =>
          obtain ⟨q, hq, hkeeps⟩ := hthreads t _ ht
          obtain ⟨hI', hk⟩ := hkeeps _ _ _ hI hx
          refine ⟨hI', fun t' p hp => ?_, fun t' a ha => ?_⟩
          · simp only [opThread, Function.update_apply] at hp
            split at hp
            · next he =>
                cases hp
                exact ⟨q, by rw [he]; exact List.mem_cons_of_mem _ hq, hk⟩
            · exact hlater _ _ _ (hthreads t' p hp)
          · exact hlater _ _ _ (hdone t' a ((List.mem_cons.mp ha).resolve_left (by simp)))
      | @ret t a ht =>
          refine ⟨hI, fun t' p hp => ?_, fun t' a' ha => ?_⟩
          · simp only [endThread, Function.update_apply] at hp
            split at hp
            · cases hp
            · exact hlater _ _ _ (hthreads t' p hp)
          · rcases List.mem_cons.mp ha with he | ha
            · cases he
              exact hlater _ _ _ (hthreads t _ ht)
            · exact hlater _ _ _ (hdone t' a' ha)
      | @fail t e ht =>
          refine ⟨hI, fun t' p hp => ?_, fun t' a' ha => ?_⟩
          · simp only [endThread, Function.update_apply] at hp
            split at hp
            · cases hp
            · exact hlater _ _ _ (hthreads t' p hp)
          · exact hlater _ _ _ (hdone t' a' ((List.mem_cons.mp ha).resolve_left (by simp)))

/-! ### What one request has seen -/

/-- An operation and its answer. -/
abbrev Seen (O : Type) (R : O → Type) := (o : O) × R o

/-- A run of a program that records the operations and their answers, newest first,
where `A` says which answers are possible. -/
def traced (A : (o : O) → R o → Prop) (o : O) (tr : List (Seen O R)) (x : R o)
    (tr' : List (Seen O R)) : Prop := A o x ∧ tr' = ⟨o, x⟩ :: tr

/-- The operations of request `t` in the log. -/
def seenBy (t : ℕ) (l : Log Q O R (Except ε α)) : List (Seen O R) :=
  l.filterMap fun
    | .op t' o x => if t' = t then some ⟨o, x⟩ else none
    | _ => none

theorem mem_of_seenBy {x : R o} (h : ⟨o, x⟩ ∈ seenBy t l) : .op t o x ∈ l := by
  obtain ⟨e, he, hs⟩ := List.mem_filterMap.mp h
  cases e with
  | start t' q => cases hs
  | done t' a => cases hs
  | op t' o' x' =>
      by_cases ht : t' = t
      · simp only [ht, if_true, Option.some.injEq] at hs
        cases hs
        rw [← ht]
        exact he
      · simp [ht] at hs

theorem traced_suffix {A : (o : O) → R o → Prop} {p : Prog O R ε β} {tr tr' : List (Seen O R)}
    {r : Except ε β} (h : p.Exec (traced A) tr r tr') : tr <:+ tr' := by
  induction p generalizing tr with
  | ret a => obtain ⟨-, rfl⟩ := h; exact List.suffix_rfl
  | fail e => obtain ⟨-, rfl⟩ := h; exact List.suffix_rfl
  | call o k ih =>
      obtain ⟨x, tr₁, ⟨-, rfl⟩, hk⟩ := h
      exact (List.suffix_cons _ _).trans (ih x hk)

theorem traced_mono {A : (o : O) → R o → Prop} {p : Prog O R ε β} {tr tr' : List (Seen O R)}
    {r : Except ε β} (h : p.Exec (traced A) tr r tr') :
    ∀ v ∈ tr, v ∈ tr' := (traced_suffix h).subset

/-- **What a request has seen is a run of its program**, whatever the others do. -/
theorem Run.traced
    (hA : ∀ w l t q o x w', .start t q ∈ l → sem o w x w' → C w l (.op t o x) → A q o x)
    (h : Run prog sem C (init w₀) P) :
    (∀ t p, P.threads t = some p → ∃ q, .start t q ∈ P.log ∧ ∀ r tr,
      p.Exec (Pool.traced (A q)) (seenBy t P.log) r tr → (prog q).Exec (Pool.traced (A q)) [] r tr) ∧
    ∀ t r, .done t r ∈ P.log → ∃ q, .start t q ∈ P.log ∧
      (prog q).Exec (Pool.traced (A q)) [] r (seenBy t P.log) := by
  induction h with
  | refl => exact ⟨by simp [init], by simp [init]⟩
  | @step P P' e hrun hs hC ih =>
      obtain ⟨hT, hD⟩ := ih
      have hcons : Consistent P := hrun.consistent (.init w₀)
      -- a request that has ended is not the one that moves
      have hended : ∀ {t t' : ℕ} {r : Except ε α} {p : Prog O R ε α}, .done t r ∈ P.log →
          P.threads t' = some p → t ≠ t' := by
        rintro t t' r p hd hp rfl
        exact ((hcons.running t).mpr (by simp [hp])).2 r hd
      have hend : ∀ (t : ℕ) (a : Except ε α) (p : Prog O R ε α), P.threads t = some p →
          (∀ A tr, p.Exec (Pool.traced A) tr a tr) →
          (∀ t' p, (P.endThread t a).threads t' = some p → ∃ q,
            .start t' q ∈ (P.endThread t a).log ∧ ∀ r tr,
            p.Exec (Pool.traced (A q)) (seenBy t' (P.endThread t a).log) r tr →
              (prog q).Exec (Pool.traced (A q)) [] r tr) ∧
          ∀ t' r, .done t' r ∈ (P.endThread t a).log → ∃ q, .start t' q ∈ (P.endThread t a).log ∧
            (prog q).Exec (Pool.traced (A q)) [] r (seenBy t' (P.endThread t a).log) := by
        intro t a p ht hexec
        refine ⟨fun t' p' hp' => ?_, fun t' r hd => ?_⟩
        · by_cases htt : t' = t
          · subst htt
            simp [endThread] at hp'
          · simp only [endThread, ne_eq, htt, not_false_eq_true, Function.update_of_ne] at hp'
            obtain ⟨q, hq, hx⟩ := hT t' p' hp'
            exact ⟨q, List.mem_cons_of_mem _ hq, hx⟩
        · rcases List.mem_cons.mp hd with hd | hd
          · cases hd
            obtain ⟨q, hq, hx⟩ := hT t p ht
            exact ⟨q, List.mem_cons_of_mem _ hq, hx _ _ (hexec _ _)⟩
          · obtain ⟨q, hq, hx⟩ := hD t' r hd
            exact ⟨q, List.mem_cons_of_mem _ hq, hx⟩
      cases hs with
      | start q ht =>
          rename_i t
          have hnone : seenBy t P.log = [] := by
            rcases hl : seenBy t P.log with - | ⟨⟨o, x⟩, tr⟩
            · rfl
            · exact absurd rfl (ht _ (mem_of_seenBy (o := o) (x := x) (by rw [hl]; simp)))
          refine ⟨fun t' p hp => ?_, fun t' r hd => ?_⟩
          · by_cases htt : t' = t
            · subst htt
              simp only [startThread, Function.update_self, Option.some.injEq] at hp
              subst hp
              refine ⟨q, List.mem_cons_self, fun r tr hx => ?_⟩
              change (prog q).Exec _ (seenBy t' P.log) r tr at hx
              rwa [hnone] at hx
            · simp only [startThread, ne_eq, htt, not_false_eq_true, Function.update_of_ne] at hp
              obtain ⟨q', hq, hx⟩ := hT t' p hp
              exact ⟨q', List.mem_cons_of_mem _ hq, hx⟩
          · have hd : .done t' r ∈ P.log := (List.mem_cons.mp hd).resolve_left (by simp)
            obtain ⟨q', hq, hx⟩ := hD t' r hd
            exact ⟨q', List.mem_cons_of_mem _ hq, hx⟩
      | op ht hx =>
          rename_i t o k x w
          have hother : ∀ {t' : ℕ}, t' ≠ t →
              seenBy t' (.op t o x :: P.log) = seenBy t' P.log := by
            intro t' hne
            simp [seenBy, Ne.symm hne]
          have hself : seenBy t (.op t o x :: P.log) = ⟨o, x⟩ :: seenBy t P.log := by
            simp [seenBy]
          refine ⟨fun t' p hp => ?_, fun t' r hd => ?_⟩
          · by_cases htt : t' = t
            · subst htt
              simp only [opThread, Function.update_self, Option.some.injEq] at hp
              subst hp
              obtain ⟨q, hq, hx'⟩ := hT t' _ ht
              refine ⟨q, List.mem_cons_of_mem _ hq, fun r tr hk => ?_⟩
              simp only [opThread, hself] at hk
              exact hx' r tr ⟨x, _, ⟨hA _ _ _ _ _ _ _ hq hx hC, rfl⟩, hk⟩
            · simp only [opThread, ne_eq, htt, not_false_eq_true, Function.update_of_ne] at hp
              obtain ⟨q', hq, hx'⟩ := hT t' p hp
              refine ⟨q', List.mem_cons_of_mem _ hq, ?_⟩
              simpa only [opThread, hother htt] using hx'
          · have hd : .done t' r ∈ P.log := (List.mem_cons.mp hd).resolve_left (by simp)
            obtain ⟨q', hq, hx'⟩ := hD t' r hd
            refine ⟨q', List.mem_cons_of_mem _ hq, ?_⟩
            simpa only [opThread, hother (hended hd ht)] using hx'
      | ret ht => exact hend _ _ _ ht fun _ _ => ⟨rfl, rfl⟩
      | fail ht => exact hend _ _ _ ht fun _ _ => ⟨rfl, rfl⟩

/-! ### Invariants from what each request has seen -/

/-- The newest operation satisfies `φ`, given the ones before. -/
def Emits (φ : List (Seen O R) → Seen O R → Prop) (tr tr' : List (Seen O R)) : Prop :=
  ∃ v, tr' = v :: tr ∧ φ tr v

/-- Whatever is answered within `A`, each operation of `p` satisfies `φ`, and `p` ends in
`F`, both as far as the operations seen before tell. -/
abbrev seenWp {β : Type} (A : (o : O) → R o → Prop) (φ : List (Seen O R) → Seen O R → Prop)
    (p : Prog O R ε β) (F : Except ε β → List (Seen O R) → Prop) (tr : List (Seen O R)) : Prop :=
  p.wp (traced A) (fun _ => True) Eq (Emits φ) F tr

theorem seenBy_op_self {x : R o} :
    seenBy t (.op t o x :: l) = ⟨o, x⟩ :: seenBy t l := by
  simp [seenBy]

theorem seenBy_op_of_ne {x : R o} (h : t' ≠ t) :
    seenBy t' (.op t o x :: l) = seenBy t' l := by
  simp [seenBy, Ne.symm h]

theorem seenBy_start :
    seenBy t' (.start t q :: l) = seenBy t' l := rfl

theorem seenBy_done {a : Except ε α} :
    seenBy t' (.done t a :: l) = seenBy t' l := rfl

theorem seenBy_of_fresh (h : Log.Fresh t l) :
    seenBy t l = [] := by
  rcases hl : seenBy t l with - | ⟨⟨o, x⟩, tr⟩
  · rfl
  · exact absurd rfl (h _ (mem_of_seenBy (o := o) (x := x) (by rw [hl]; simp)))

theorem mem_seenBy {x : R o} :
    ⟨o, x⟩ ∈ seenBy t l ↔ .op t o x ∈ l := by
  refine ⟨mem_of_seenBy, fun h => ?_⟩
  exact List.mem_filterMap.mpr ⟨_, h, by simp⟩

/-- Where an operation stands among those of its request, it stands in the log. -/
theorem split_of_seenBy {x : R o} {tr₂ tr₁ : List (Seen O R)}
    (h : seenBy t l = tr₂ ++ ⟨o, x⟩ :: tr₁) :
    ∃ l₂ l₁, l = l₂ ++ .op t o x :: l₁ ∧ seenBy t l₂ = tr₂ ∧ seenBy t l₁ = tr₁ := by
  obtain ⟨l₂, l₀, rfl, h₂, h₀⟩ := List.filterMap_eq_append_iff.mp h
  obtain ⟨m, e, l₁, rfl, hm, he, h₁⟩ := List.filterMap_eq_cons_iff.mp h₀
  have hop : e = .op t o x := by
    cases e with
    | start t' q => cases he
    | done t' a => cases he
    | op t' o' x' =>
        by_cases ht : t' = t
        · simp only [ht, if_true, Option.some.injEq] at he
          cases he
          rw [ht]
        · simp [ht] at he
  have hnone : seenBy t m = [] := List.filterMap_eq_nil_iff.mpr hm
  refine ⟨l₂ ++ m, l₁, by rw [hop]; simp, ?_, h₁⟩
  show seenBy t (l₂ ++ m) = tr₂
  rw [seenBy, List.filterMap_append]
  show seenBy t l₂ ++ seenBy t m = tr₂
  rw [hnone, List.append_nil]
  exact h₂

/-- Every request in flight keeps the promises of its program. -/
def Promised (A : Q → (o : O) → R o → Prop) (G : Q → List (Seen O R) → Seen O R → Prop)
    (F : Q → Except ε α → List (Seen O R) → Prop) (P : Pool Q O R W ε α) : Prop :=
  ∀ t p, P.threads t = some p → ∃ q, .start t q ∈ P.log ∧
    seenWp (A q) (G q) p (F q) (seenBy t P.log)

section Seen

variable {G : Q → List (Seen O R) → Seen O R → Prop}
  {F : Q → Except ε α → List (Seen O R) → Prop}
  (hprog : ∀ q, seenWp (A q) (G q) (prog q) (F q) [])
  (hA : ∀ w l t q o x w', I w l → .start t q ∈ l → sem o w x w' → C w l (.op t o x) → A q o x)
  (hinit : I w₀ [])
  (hstart : ∀ w l t q, I w l → Log.Fresh t l → C w l (.start t q) → I w (.start t q :: l))
  (hop : ∀ w l t q o x w', I w l → .start t q ∈ l → Log.Running t l → sem o w x w' →
    C w l (.op t o x) → G q (seenBy t l) ⟨o, x⟩ → I w' (.op t o x :: l))
  (hdone : ∀ w l t q r, I w l → .start t q ∈ l → Log.Running t l → C w l (.done t r) →
    F q r (seenBy t l) → I w (.done t r :: l))

include hprog hA hstart hop hdone

/-- **Invariants of all interleavings** from what each request knows by its own
operations: a step may use which request it belongs to, what that request has seen, and
what its program promises for it. -/
theorem Run.inv_of_seen_from (hc : Consistent P₀) (hinit : I P₀.world P₀.log)
    (hthreads : Promised A G F P₀) (h : Run prog sem C P₀ P) :
    I P.world P.log ∧ Promised A G F P := by
  induction h with
  | refl => exact ⟨hinit, hthreads⟩
  | @step P P' e hrun hs hC ih =>
      obtain ⟨hI, hT⟩ := ih
      have hcons : Consistent P := hrun.consistent hc
      have hend : ∀ (t : ℕ) (a : Except ε α) (p : Prog O R ε α), P.threads t = some p →
          (∀ A G F tr, seenWp A G p F tr → F a tr) → C P.world P.log (.done t a) →
          I P.world (.done t a :: P.log) ∧ ∀ t' p, (P.endThread t a).threads t' = some p →
            ∃ q, .start t' q ∈ (P.endThread t a).log ∧
              seenWp (A q) (G q) p (F q) (seenBy t' (P.endThread t a).log) := by
        intro t a p ht hfin hC
        obtain ⟨q, hq, hwp⟩ := hT t p ht
        refine ⟨hdone _ _ _ q _ hI hq ((hcons.running t).mpr (by simp [ht])) hC
          (hfin _ _ _ _ hwp), fun t' p' hp' => ?_⟩
        by_cases htt : t' = t
        · subst htt
          simp [endThread] at hp'
        · simp only [endThread, ne_eq, htt, not_false_eq_true, Function.update_of_ne] at hp'
          obtain ⟨q', hq', hwp'⟩ := hT t' p' hp'
          exact ⟨q', List.mem_cons_of_mem _ hq', hwp'⟩
      cases hs with
      | start q ht =>
          rename_i t
          refine ⟨hstart _ _ _ _ hI ht hC, fun t' p hp => ?_⟩
          by_cases htt : t' = t
          · subst htt
            simp only [startThread, Function.update_self, Option.some.injEq] at hp
            subst hp
            refine ⟨q, List.mem_cons_self, ?_⟩
            rw [startThread, seenBy_start, seenBy_of_fresh ht]
            exact hprog q
          · simp only [startThread, ne_eq, htt, not_false_eq_true, Function.update_of_ne] at hp
            obtain ⟨q', hq', hwp'⟩ := hT t' p hp
            exact ⟨q', List.mem_cons_of_mem _ hq', hwp'⟩
      | op ht hx =>
          rename_i t o k x w
          obtain ⟨q, hq, hwp⟩ := hT t _ ht
          obtain ⟨-, ⟨v, hv, hφ⟩, hk⟩ := hwp _ rfl trivial x _
            ⟨hA _ _ _ _ _ _ _ hI hq hx hC, rfl⟩
          obtain rfl : v = ⟨o, x⟩ := (List.cons.inj hv).1.symm
          refine ⟨hop _ _ _ q _ _ _ hI hq ((hcons.running t).mpr (by simp [ht])) hx hC hφ, ?_⟩
          intro t' p hp
          by_cases htt : t' = t
          · subst htt
            simp only [opThread, Function.update_self, Option.some.injEq] at hp
            subst hp
            refine ⟨q, List.mem_cons_of_mem _ hq, ?_⟩
            rw [opThread, seenBy_op_self]
            exact hk
          · simp only [opThread, ne_eq, htt, not_false_eq_true, Function.update_of_ne] at hp
            obtain ⟨q', hq', hwp'⟩ := hT t' p hp
            refine ⟨q', List.mem_cons_of_mem _ hq', ?_⟩
            rw [opThread, seenBy_op_of_ne htt]
            exact hwp'
      | ret ht => exact hend _ _ _ ht (fun _ _ _ _ h => h _ rfl trivial) hC
      | fail ht => exact hend _ _ _ ht (fun _ _ _ _ h => h _ rfl trivial) hC

include hinit in
theorem Run.inv_of_seen (h : Run prog sem C (init w₀) P) : I P.world P.log ∧ Promised A G F P :=
  h.inv_of_seen_from hprog hA hstart hop hdone (.init w₀) hinit (by simp [Promised, init])

end Seen

/-! ### Reasoning about what a request has seen -/

section Sees

variable {A : (o : O) → R o → Prop} {G : List (Seen O R) → Seen O R → Prop}
  {β γ : Type} {tr : List (Seen O R)}
  {p : Prog O R ε β} {φ : O → Prop}

/-- A promise may be weakened. -/
theorem seenWp_weaken {G' : List (Seen O R) → Seen O R → Prop}
    {F : Except ε β → List (Seen O R) → Prop} (h : seenWp A G p F tr)
    (hG : ∀ tr v, G tr v → G' tr v) : seenWp A G' p F tr := by
  induction p generalizing tr with
  | ret a => exact h
  | fail e => exact h
  | call o k ih =>
      rintro _ rfl - x _ ⟨hA, rfl⟩
      obtain ⟨-, ⟨v, hv, hg⟩, hk⟩ := h _ rfl trivial x _ ⟨hA, rfl⟩
      exact ⟨trivial, ⟨v, hv, hG _ _ hg⟩, ih x hk⟩

/-- Promises that were shown one by one hold together. -/
theorem seenWp_and {G' : List (Seen O R) → Seen O R → Prop}
    {F F' : Except ε β → List (Seen O R) → Prop} (h : seenWp A G p F tr)
    (h' : seenWp A G' p F' tr) :
    seenWp A (fun tr v => G tr v ∧ G' tr v) p (fun r tr' => F r tr' ∧ F' r tr') tr := by
  induction p generalizing tr with
  | ret a =>
      rintro _ rfl -
      exact ⟨h _ rfl trivial, h' _ rfl trivial⟩
  | fail e =>
      rintro _ rfl -
      exact ⟨h _ rfl trivial, h' _ rfl trivial⟩
  | call o k ih =>
      rintro _ rfl - x _ ⟨hA, rfl⟩
      obtain ⟨-, ⟨v, hv, hg⟩, hk⟩ := h _ rfl trivial x _ ⟨hA, rfl⟩
      obtain ⟨-, ⟨v', hv', hg'⟩, hk'⟩ := h' _ rfl trivial x _ ⟨hA, rfl⟩
      obtain rfl := (List.cons.inj (hv.symm.trans hv')).1
      exact ⟨trivial, ⟨v, hv, hg, hg'⟩, ih x hk hk'⟩

/-- A program only adds to what was seen. -/
theorem seenWp_suffix {F : Except ε β → List (Seen O R) → Prop} (h : seenWp A G p F tr) :
    seenWp A G p (fun r tr' => tr <:+ tr' ∧ F r tr') tr := by
  suffices ∀ tr₀ : List (Seen O R), tr₀ <:+ tr →
      seenWp A G p (fun r tr' => tr₀ <:+ tr' ∧ F r tr') tr from this tr List.suffix_rfl
  induction p generalizing tr with
  | ret a =>
      rintro tr₀ h₀ _ rfl -
      exact ⟨h₀, h _ rfl trivial⟩
  | fail e =>
      rintro tr₀ h₀ _ rfl -
      exact ⟨h₀, h _ rfl trivial⟩
  | call o k ih =>
      rintro tr₀ h₀ _ rfl - x _ ⟨hA, rfl⟩
      obtain ⟨-, hg, hk⟩ := h _ rfl trivial x _ ⟨hA, rfl⟩
      exact ⟨trivial, hg, ih x hk tr₀ (h₀.trans (List.suffix_cons _ _))⟩

/-- What was seen stays seen. -/
theorem seenWp_mem {F : Except ε β → List (Seen O R) → Prop} (h : seenWp A G p F tr) :
    seenWp A G p (fun r tr' => (∀ v ∈ tr, v ∈ tr') ∧ F r tr') tr :=
  Prog.wp_mono (seenWp_suffix h) fun _ _ hr => ⟨fun _ hv => hr.1.subset hv, hr.2⟩

/-- Each operation of `p` satisfies `G`, and a value that `p` returns satisfies `F`. -/
def Sees (A : (o : O) → R o → Prop) (G : List (Seen O R) → Seen O R → Prop) (p : Prog O R ε β)
    (F : β → List (Seen O R) → Prop) (tr : List (Seen O R)) : Prop :=
  seenWp A G p (fun r tr' => ∀ b, r = .ok b → F b tr') tr

variable {F : β → List (Seen O R) → Prop}

theorem sees_ret {b : β} (h : F b tr) : Sees A G (.ret b : Prog O R ε β) F tr := by
  rintro _ rfl - b' hb
  cases hb
  exact h

theorem sees_fail {e : ε} : Sees A G (.fail e : Prog O R ε β) F tr := by
  rintro _ rfl - b hb
  cases hb

/-- The rule for a sequence: what the first part has seen is there for the second. -/
theorem sees_bind {f : β → Prog O R ε γ} {F' : γ → List (Seen O R) → Prop} (hp : Sees A G p F tr)
    (hf : ∀ b tr', (∀ v ∈ tr, v ∈ tr') → F b tr' → Sees A G (f b) F' tr') :
    Sees A G (p >>= f) F' tr := by
  refine Prog.wp_seq (fun _ => rfl) (P := fun b tr' => (∀ v ∈ tr, v ∈ tr') ∧ F b tr') ?_
    (fun b tr' h => hf b tr' h.1 h.2) (fun e tr' b hb => by cases hb)
  exact Prog.wp_mono (seenWp_mem hp) fun r tr' h b hb => ⟨h.1, h.2 b hb⟩

theorem sees_mono {F' : β → List (Seen O R) → Prop} (hp : Sees A G p F' tr)
    (h : ∀ b tr', (∀ v ∈ tr, v ∈ tr') → F' b tr' → F b tr') : Sees A G p F tr :=
  Prog.wp_mono (seenWp_mem hp) fun _ tr' hr b hb => h b tr' hr.1 (hr.2 b hb)

theorem Sees.suffix (hp : Sees A G p F tr) :
    Sees A G p (fun b tr' => tr <:+ tr' ∧ F b tr') tr :=
  Prog.wp_mono (seenWp_suffix hp) fun _ _ hr b hb => ⟨hr.1, hr.2 b hb⟩

/-- What a program adds to what was seen: operations that it can call, as it promises them. -/
theorem Sees.grown_as {ψ : Seen O R → Prop} (hp : Sees A G p F tr) (hφ : p.Within φ)
    (hψ : ∀ tr v, G tr v → φ v.1 → ψ v) :
    Sees A G p (fun b tr' => F b tr' ∧ ∃ tr₂, tr' = tr₂ ++ tr ∧ ∀ v ∈ tr₂, ψ v) tr := by
  suffices ∀ tr₀ tr₂ : List (Seen O R), tr = tr₂ ++ tr₀ → (∀ v ∈ tr₂, ψ v) →
      Sees A G p (fun b tr' => F b tr' ∧ ∃ tr₂, tr' = tr₂ ++ tr₀ ∧ ∀ v ∈ tr₂, ψ v) tr from
    this tr [] rfl (by simp)
  induction p generalizing tr with
  | ret b =>
      rintro tr₀ tr₂ h₂ hall _ rfl - b' hb
      exact ⟨hp _ rfl trivial b' hb, tr₂, h₂, hall⟩
  | fail e =>
      rintro tr₀ tr₂ h₂ hall _ rfl - b' hb
      cases hb
  | call o k ih =>
      rintro tr₀ tr₂ h₂ hall _ rfl - x _ ⟨hA, rfl⟩
      obtain ⟨-, ⟨v, hv, hg⟩, hk⟩ := hp _ rfl trivial x _ ⟨hA, rfl⟩
      obtain ⟨rfl, -⟩ := List.cons.inj hv
      refine ⟨trivial, ⟨_, rfl, hg⟩, ih x hk (hφ.2 x) tr₀ (⟨o, x⟩ :: tr₂) (by rw [h₂]; rfl) ?_⟩
      exact List.forall_mem_cons.mpr ⟨hψ _ _ hg hφ.1, hall⟩

theorem Sees.grown (hp : Sees A G p F tr) (hφ : p.Within φ) :
    Sees A G p (fun b tr' => F b tr' ∧ ∃ tr₂, tr' = tr₂ ++ tr ∧ ∀ v ∈ tr₂, φ v.1) tr :=
  hp.grown_as hφ fun _ _ _ h => h

theorem Sees.within (hp : Sees A G p F tr) (hφ : p.Within φ) :
    Sees A G p (fun b tr' => F b tr' ∧ ∀ v ∈ tr', v ∈ tr ∨ φ v.1) tr := by
  refine Prog.wp_mono (hp.grown hφ) fun r tr' h b hb => ?_
  obtain ⟨hF, tr₂, rfl, hall⟩ := h b hb
  exact ⟨hF, fun v hv => (List.mem_append.mp hv).symm.imp_right (hall v)⟩

/-- What a program adds to what was seen keeps what its promises say of each operation. -/
theorem Sees.emitted {ψ : Seen O R → Prop} (hp : Sees A G p F tr) (hψ : ∀ tr v, G tr v → ψ v) :
    Sees A G p (fun b tr' => F b tr' ∧ ∀ v ∈ tr', v ∈ tr ∨ ψ v) tr := by
  have hgrown := hp.grown_as (Prog.within_of_forall (fun _ => trivial) p)
    fun tr v hg (_ : True) => hψ tr v hg
  refine Prog.wp_mono hgrown fun r tr' h b hb => ?_
  obtain ⟨hF, tr₂, rfl, hall⟩ := h b hb
  exact ⟨hF, fun v hv => (List.mem_append.mp hv).symm.imp_right (hall v)⟩

theorem sees_call {o : O} {k : R o → Prog O R ε β} (hG : ∀ x, A o x → G tr ⟨o, x⟩)
    (hk : ∀ x, A o x → Sees A G (k x) F (⟨o, x⟩ :: tr)) : Sees A G (.call o k) F tr := by
  rintro _ rfl - x _ ⟨hA, rfl⟩
  exact ⟨trivial, ⟨_, rfl, hG x hA⟩, hk x hA⟩

theorem sees_throwIf {c : Prop} [Decidable c] {e : ε} :
    Sees A G (Prog.throwIf c e : Prog O R ε Unit) (fun _ tr' => tr' = tr ∧ ¬ c) tr := by
  unfold Prog.throwIf
  split
  · exact sees_fail
  · next hc => exact sees_ret ⟨rfl, hc⟩

theorem sees_runIf {c : Prop} [Decidable c] {p : Prog O R ε Unit}
    {F : Unit → List (Seen O R) → Prop} (hp : c → Sees A G p F tr) (h : ¬ c → F () tr) :
    Sees A G (Prog.runIf c p) F tr := by
  unfold Prog.runIf
  split
  · next hc => exact hp hc
  · next hc => exact sees_ret (h hc)

theorem sees_mapErr {ε' : Type} {g : ε → ε'} (hp : Sees A G p F tr) :
    Sees A G (Prog.mapErr g p) F tr := by
  refine Prog.wp_mapErr (Prog.wp_mono hp fun r tr' hr b hb => ?_)
  cases r with
  | ok a => cases hb; exact hr _ rfl
  | error e => cases hb

theorem sees_attempt {ε' : Type} (hp : Sees A G p F tr) :
    Sees A G (Prog.attempt p : Prog O R ε' (Except ε β)) (fun r tr' => ∀ b, r = .ok b → F b tr')
      tr := by
  refine Prog.wp_attempt (Prog.wp_mono hp fun r tr' hr x hx => ?_)
  cases hx
  exact hr

/-- A part of which it only matters that its operations are allowed. -/
theorem sees_of_within (hp : p.Within φ) (hφ : ∀ o, φ o → ∀ tr x, A o x → G tr ⟨o, x⟩) :
    Sees A G p (fun _ _ => True) tr := by
  refine Prog.wp_mono (Prog.wp_of_within (P := fun _ => True) hp (fun _ _ _ _ => trivial) ?_ trivial)
    fun _ _ _ _ _ => trivial
  rintro o ho tr x _ - - ⟨hA, rfl⟩
  exact ⟨trivial, ⟨_, rfl, hφ o ho tr x hA⟩, trivial⟩

end Sees

/-! ### One request after the other -/

/-- The events are operations of request `t`. -/
def OpsOf (t : ℕ) (evs : Log Q O R (Except ε α)) : Prop := ∀ e ∈ evs, ∃ o x, e = .op t o x

section OpsOf

variable {t t' : ℕ} {evs l : Log Q O R (Except ε α)} {q q' : Q} {a : Except ε α}

theorem OpsOf.start_mem (h : OpsOf t evs) : .start t' q ∈ evs ++ l ↔ .start t' q ∈ l := by
  refine ⟨fun hm => ?_, List.mem_append_right _⟩
  rcases List.mem_append.mp hm with hm | hm
  · obtain ⟨o, x, he⟩ := h _ hm
    cases he
  · exact hm

theorem OpsOf.done_mem (h : OpsOf t evs) : .done t' a ∈ evs ++ l ↔ .done t' a ∈ l := by
  refine ⟨fun hm => ?_, List.mem_append_right _⟩
  rcases List.mem_append.mp hm with hm | hm
  · obtain ⟨o, x, he⟩ := h _ hm
    cases he
  · exact hm

/-- A fresh request is started once. -/
theorem start_mem_fresh (hf : Log.Fresh t l) : .start t q' ∈ .start t q :: l ↔ q' = q := by
  constructor
  · intro h
    rcases List.mem_cons.mp h with h | h
    · cases h; rfl
    · exact absurd rfl (hf _ h)
  · rintro rfl
    exact List.mem_cons_self

end OpsOf

/-- A run with the log is a run without it, and it logs operations only. -/
theorem exec_logged {p : Prog O R ε β} {s s' : W × Log Q O R (Except ε α)} {r : Except ε β}
    (h : p.Exec (logged sem C t) s r s') :
    p.Exec sem s.1 r s'.1 ∧ ∃ evs, OpsOf t evs ∧ s'.2 = evs ++ s.2 := by
  induction p generalizing s with
  | ret a => obtain ⟨rfl, rfl⟩ := h; exact ⟨⟨rfl, rfl⟩, [], by simp [OpsOf], rfl⟩
  | fail e => obtain ⟨rfl, rfl⟩ := h; exact ⟨⟨rfl, rfl⟩, [], by simp [OpsOf], rfl⟩
  | call o k ih =>
      obtain ⟨x, s₁, ⟨hx, -, hl⟩, hk⟩ := h
      obtain ⟨h₁, evs, hevs, h₂⟩ := ih x hk
      refine ⟨⟨x, s₁.1, hx, h₁⟩, evs ++ [.op t o x], ?_, by rw [h₂, hl]; simp⟩
      intro e he
      rcases List.mem_append.mp he with he | he
      · exact hevs e he
      · exact ⟨o, x, List.mem_singleton.mp he⟩

/-- A request in flight is alone, and on its way from a state with `I`. -/
def Underway (prog : Q → Prog O R ε α) (sem : (o : O) → W → R o → W → Prop)
    (C : W → Log Q O R (Except ε α) → Event Q O R (Except ε α) → Prop)
    (I : W → Log Q O R (Except ε α) → Prop) (P : Pool Q O R W ε α) : Prop :=
  ∀ t p, P.threads t = some p → (∀ t', t' ≠ t → P.threads t' = none) ∧
    ∃ w l q evs, I w l ∧ Log.Fresh t l ∧ C w l (.start t q) ∧
      OpsOf t evs ∧ P.log = evs ++ .start t q :: l ∧
      ∀ r s', p.Exec (logged sem C t) (P.world, P.log) r s' →
        (prog q).Exec (logged sem C t) (w, .start t q :: l) r s'

/-- **Invariants of sequential runs**: what each request keeps, seen as a whole,
holds whenever no request is in flight. -/
theorem Run.sequential_from (hcons₀ : Consistent P₀) (hidle₀ : P₀.Idle) (hinit : I P₀.world P₀.log)
    (hC : ∀ w l e, C w l e → OneByOne w l e)
    (hreq : ∀ w l t q r w' l', I w l → Log.Fresh t l → C w l (.start t q) →
      (prog q).Exec (logged sem C t) (w, .start t q :: l) r (w', l') →
      C w' l' (.done t r) → I w' (.done t r :: l')) (h : Run prog sem C P₀ P) :
    (P.Idle → I P.world P.log) ∧ Underway prog sem C I P := by
  induction h with
  | refl =>
      refine ⟨fun _ => hinit, fun t p hp => ?_⟩
      rw [hidle₀ t] at hp
      cases hp
  | @step P P' e hrun hs hCe ih =>
      obtain ⟨hI, hT⟩ := ih
      have hcons : Consistent P := hrun.consistent hcons₀
      have hend : ∀ (t : ℕ) (a : Except ε α) (p : Prog O R ε α), P.threads t = some p →
          p.Exec (logged sem C t) (P.world, P.log) a (P.world, P.log) →
          C P.world P.log (.done t a) →
          ((P.endThread t a).Idle → I P.world (.done t a :: P.log)) ∧
          ∀ t' p', (P.endThread t a).threads t' ≠ some p' := by
        intro t a p ht hexec hCd
        obtain ⟨halone, w, l, q, evs, hIw, hf, hCs, -, -, hx⟩ := hT t p ht
        refine ⟨fun _ => hreq _ _ _ _ _ _ _ hIw hf hCs (hx _ _ hexec) hCd, ?_⟩
        intro t' p'
        by_cases htt : t' = t
        · subst htt
          simp [endThread]
        · simp [endThread, htt, halone t' htt]
      cases hs with
      | start q ht =>
          rename_i t
          have hidle : P.Idle := by
            intro t'
            by_contra hne
            exact hC _ _ _ hCe t q rfl t' ((hcons.running t').mpr hne)
          refine ⟨fun hid => ?_, fun t' p hp => ?_⟩
          · have := hid t
            simp [startThread] at this
          · by_cases htt : t' = t
            · subst htt
              simp only [startThread, Function.update_self, Option.some.injEq] at hp
              subst hp
              refine ⟨fun t'' h'' => ?_, P.world, P.log, q, [], hI hidle, ht, hCe,
                by simp [OpsOf], rfl, fun _ _ hx => hx⟩
              simp [startThread, h'', hidle t'']
            · simp [startThread, htt, hidle t'] at hp
      | op ht hx =>
          rename_i t o k x w
          obtain ⟨halone, w', l', q, evs, hIw, hf, hCs, hevs, hlog, hex⟩ := hT t _ ht
          refine ⟨fun hid => ?_, fun t' p hp => ?_⟩
          · have := hid t
            simp [opThread] at this
          · by_cases htt : t' = t
            · subst htt
              simp only [opThread, Function.update_self, Option.some.injEq] at hp
              subst hp
              refine ⟨fun t'' h'' => ?_, w', l', q, .op t' o x :: evs, hIw, hf, hCs, ?_, ?_,
                fun r s' hx' => ?_⟩
              · simp [opThread, h'', halone t'' h'']
              · intro e he
                rcases List.mem_cons.mp he with rfl | he
                · exact ⟨o, x, rfl⟩
                · exact hevs e he
              · simp [opThread, hlog]
              · exact hex r s' ⟨x, _, ⟨hx, hCe, rfl⟩, hx'⟩
            · simp [opThread, htt, halone t' htt] at hp
      | ret ht =>
          obtain ⟨h₁, h₂⟩ := hend _ _ _ ht ⟨rfl, rfl⟩ hCe
          exact ⟨h₁, fun t' p' hp' => absurd hp' (h₂ t' p')⟩
      | fail ht =>
          obtain ⟨h₁, h₂⟩ := hend _ _ _ ht ⟨rfl, rfl⟩ hCe
          exact ⟨h₁, fun t' p' hp' => absurd hp' (h₂ t' p')⟩

theorem Run.sequential (hinit : I w₀ []) (hC : ∀ w l e, C w l e → OneByOne w l e)
    (hreq : ∀ w l t q r w' l', I w l → Log.Fresh t l → C w l (.start t q) →
      (prog q).Exec (logged sem C t) (w, .start t q :: l) r (w', l') →
      C w' l' (.done t r) → I w' (.done t r :: l')) (h : Run prog sem C (init w₀) P) :
    (P.Idle → I P.world P.log) ∧ Underway prog sem C I P :=
  Run.sequential_from (.init w₀) (fun _ => rfl) hinit hC hreq h

/-- What holds of every answer of a sequential run, from a proof for each request. -/
theorem Run.sequential_always {A : Event Q O R (Except ε α) → Log Q O R (Except ε α) → Prop}
    (hinit : I w₀ []) (hC : ∀ w l e, C w l e → OneByOne w l e) (hstart : ∀ t q l, A (.start t q) l)
    (hop : ∀ t o x l, A (.op t o x) l)
    (hreq : ∀ w l t q r w' l', I w l → Log.Fresh t l → C w l (.start t q) →
      (prog q).Exec (logged sem C t) (w, .start t q :: l) r (w', l') →
      C w' l' (.done t r) → I w' (.done t r :: l') ∧ A (.done t r) l')
    (h : Run prog sem C (init w₀) P) : Log.Always A P.log := by
  have hops : ∀ {t : ℕ} {evs l : Log Q O R (Except ε α)}, OpsOf t evs → Log.Always A l →
      Log.Always A (evs ++ l) := by
    intro t evs l hevs hl
    induction evs with
    | nil => exact hl
    | cons e evs ih =>
        obtain ⟨o, x, rfl⟩ := hevs e (by simp)
        exact ⟨hop _ _ _ _, ih fun e he => hevs e (by simp [he])⟩
  have key := Run.sequential (I := fun w l => I w l ∧ Log.Always A l) ⟨hinit, trivial⟩ hC
    (by
      intro w l t q r w' l' hI hf hCs hx hCd
      obtain ⟨hI', hA⟩ := hreq _ _ _ _ _ _ _ hI.1 hf hCs hx hCd
      obtain ⟨evs, hevs, hl⟩ := (exec_logged hx).2
      simp only at hl
      refine ⟨hI', hA, ?_⟩
      rw [hl]
      exact hops hevs ⟨hstart _ _ _, hI.2⟩) h
  by_cases hidle : P.Idle
  · exact (key.1 hidle).2
  · obtain ⟨t, ht⟩ : ∃ t, P.threads t ≠ none := not_forall.mp hidle
    obtain ⟨p, hp⟩ := Option.ne_none_iff_exists'.mp ht
    obtain ⟨-, w, l, q, evs, hI, -, -, hevs, hlog, -⟩ := key.2 t p hp
    rw [hlog]
    exact hops hevs ⟨hstart _ _ _, hI.2⟩

/-! ### Schedules that evaluate -/

/-- A move of a schedule: start request `t`, let it do its next operation with
the outcome that `c` selects, or end it. -/
inductive Move (Q K : Type) where
  | start (t : ℕ) (q : Q)
  | op (t : ℕ) (c : K)
  | done (t : ℕ)

section Moves

variable {K : Type} (prog : Q → Prog O R ε α) (run : K → (o : O) → W → Option (R o × W))
  (cond : W → Log Q O R (Except ε α) → Event Q O R (Except ε α) → Bool)

/-- The operations whose outcome some choice `c` selects. -/
def semOf (run : K → (o : O) → W → Option (R o × W)) (o : O) (w : W) (x : R o) (w' : W) :
    Prop := ∃ c, run c o w = some (x, w')

/-- Do one move, if it is possible and the condition allows it. -/
def move (P : Pool Q O R W ε α) : Move Q K → Option (Pool Q O R W ε α)
  | .start t q =>
      if Log.Fresh t P.log ∧ cond P.world P.log (.start t q) then
        some (P.startThread prog t q)
      else none
  | .op t c =>
      match P.threads t with
      | some (.call o k) =>
          match run c o P.world with
          | some (x, w) =>
              if cond P.world P.log (.op t o x) then some (P.opThread t o x w (k x)) else none
          | none => none
      | _ => none
  | .done t =>
      match P.threads t with
      | some (.ret a) =>
          if cond P.world P.log (.done t (.ok a)) then some (P.endThread t (.ok a)) else none
      | some (.fail e) =>
          if cond P.world P.log (.done t (.error e)) then
            some (P.endThread t (.error e))
          else none
      | _ => none

/-- Do the moves of a schedule in order. -/
def moves (P : Pool Q O R W ε α) : List (Move Q K) → Option (Pool Q O R W ε α)
  | [] => some P
  | m :: ms => (P.move prog run cond m).bind fun P' => P'.moves ms

variable {prog run cond}

theorem step_of_move {P P' : Pool Q O R W ε α} {m : Move Q K}
    (h : P.move prog run cond m = some P') :
    ∃ e, Step prog (semOf run) P e P' ∧ cond P.world P.log e = true := by
  cases m with
  | start t q =>
      simp only [move] at h
      split at h
      · next hc => cases h; exact ⟨_, .start q hc.1, hc.2⟩
      · cases h
  | op t c =>
      simp only [move] at h
      split at h
      · next o k ht =>
          split at h
          · next x w hx =>
              split at h
              · next hc => cases h; exact ⟨_, .op ht ⟨c, hx⟩, hc⟩
              · cases h
          · cases h
      · cases h
  | done t =>
      simp only [move] at h
      split at h
      · next a ht =>
          split at h
          · next hc => cases h; exact ⟨_, .ret ht, hc⟩
          · cases h
      · next e ht =>
          split at h
          · next hc => cases h; exact ⟨_, .fail ht, hc⟩
          · cases h
      · cases h

/-- **A schedule that evaluates is a run.** -/
theorem run_of_moves {P₀ P P' : Pool Q O R W ε α} {ms : List (Move Q K)}
    (h : P.moves prog run cond ms = some P') (hC : ∀ w l e, cond w l e = true → C w l e)
    (h₀ : Run prog (semOf run) C P₀ P) : Run prog (semOf run) C P₀ P' := by
  induction ms generalizing P with
  | nil => cases h; exact h₀
  | cons m ms ih =>
      obtain ⟨P₁, h₁, h₂⟩ := Option.bind_eq_some_iff.mp h
      obtain ⟨e, hs, hc⟩ := step_of_move h₁
      exact ih h₂ (.step h₀ hs (hC _ _ _ hc))

/-- A schedule that evaluates to a pool with a property that evaluates. -/
theorem exists_run_of_moves (prog : Q → Prog O R ε α) (run : K → (o : O) → W → Option (R o × W))
    (cond : W → Log Q O R (Except ε α) → Event Q O R (Except ε α) → Bool) (w₀ : W)
    (ms : List (Move Q K)) (check : Pool Q O R W ε α → Bool)
    (h : ((init w₀).moves prog run cond ms).any check = true)
    (hC : ∀ w l e, cond w l e = true → C w l e) :
    ∃ P, Run prog (semOf run) C (init w₀) P ∧ check P = true := by
  rcases hP : (init w₀).moves prog run cond ms with - | P
  · rw [hP] at h; cases h
  · rw [hP] at h
    exact ⟨P, run_of_moves hP hC .refl, h⟩

/-- The outcome of a program if the environment makes these choices. -/
def runWith {β : Type} (run : K → (o : O) → W → Option (R o × W)) :
    Prog O R ε β → List K → W → Option (Except ε β × W)
  | .ret b, _, w => some (.ok b, w)
  | .fail e, _, w => some (.error e, w)
  | .call _ _, [], _ => none
  | .call o k, c :: cs, w => (run c o w).bind fun x => runWith run (k x.1) cs x.2

theorem exec_of_runWith {β : Type} {run : K → (o : O) → W → Option (R o × W)} {p : Prog O R ε β}
    {cs : List K} {w w' : W} {r : Except ε β} (h : runWith run p cs w = some (r, w')) :
    p.Exec (semOf run) w r w' := by
  induction p generalizing cs w with
  | ret b =>
      cases h
      exact ⟨rfl, rfl⟩
  | fail e =>
      cases h
      exact ⟨rfl, rfl⟩
  | call o k ih =>
      cases cs with
      | nil => cases h
      | cons c cs =>
          obtain ⟨⟨x, w₁⟩, hx, hk⟩ := Option.bind_eq_some_iff.mp h
          exact ⟨x, w₁, ⟨c, hx⟩, ih x hk⟩

theorem exists_exec_of_choices {β : Type} (run : K → (o : O) → W → Option (R o × W))
    (p : Prog O R ε β) (cs : List K) (w : W) (check : Except ε β → W → Bool)
    (h : (runWith run p cs w).any (fun x => check x.1 x.2) = true) :
    ∃ r w', p.Exec (semOf run) w r w' ∧ check r w' = true := by
  rcases hr : runWith run p cs w with - | ⟨r, w'⟩
  · rw [hr] at h; cases h
  · rw [hr] at h
    exact ⟨r, w', exec_of_runWith hr, h⟩

end Moves

end Pool
