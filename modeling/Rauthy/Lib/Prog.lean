/-
Rauthy/Lib/Prog.lean

Programs over an interface of operations.  A program of type `Prog O R ε α`
touches the outside world only by calling operations `o : O`, each of which
answers with a value of type `R o`; it ends with a value `a : α` or fails with
`e : ε`.  One operation is one atomic step, so the same program can be run from
start to end (`Exec`) and interleaved with others (`Rauthy.Lib.Pool`).

Reasoning tools:
  * `exec_bind`, `exec_attempt`: inversion of a whole run along the program text;
  * `Hoare`: pre- and postconditions of whole runs under an invariant;
  * `Outcomes`: what every outcome of a whole run satisfies;
  * `wp`: weakest precondition under an invariant, a rely and a guarantee;
  * `Within φ p`: every operation that `p` can ever call satisfies `φ`;
  * `Strict A p`: `p` fails at the first answer outside `A`.
-/
import Mathlib.Logic.Relation
import Mathlib.Tactic.Common

/-- A program calling operations `o : O` with answers in `R o`. -/
inductive Prog (O : Type) (R : O → Type) (ε α : Type) where
  | ret (a : α)
  | fail (e : ε)
  | call (o : O) (k : R o → Prog O R ε α)

namespace Prog

variable {O : Type} {R : O → Type} {ε ε' α β : Type} {p : Prog O R ε α} {f : α → Prog O R ε β}

/-- Sequencing: a failure ends the program. -/
def bind : Prog O R ε α → (α → Prog O R ε β) → Prog O R ε β
  | ret a, f => f a
  | fail e, _ => fail e
  | call o k, f => call o fun r => bind (k r) f

instance : Monad (Prog O R ε) where
  pure := ret
  bind := bind

/-- One operation, its answer being the result. -/
def op (o : O) : Prog O R ε (R o) := call o ret

/-- A value that is already there, or a failure. -/
def ofExcept : Except ε α → Prog O R ε α
  | .ok a => ret a
  | .error e => fail e

/-- Fail with `e` if `c` holds, go on otherwise. -/
def throwIf (c : Prop) [Decidable c] (e : ε) : Prog O R ε Unit :=
  if c then fail e else ret ()

/-- Run `p` only if `c` holds. -/
def runIf (c : Prop) [Decidable c] (p : Prog O R ε Unit) : Prog O R ε Unit :=
  if c then p else ret ()

/-- Run `p` to its end and hand its outcome over as a value. -/
def attempt : Prog O R ε α → Prog O R ε' (Except ε α)
  | ret a => ret (.ok a)
  | fail e => ret (.error e)
  | call o k => call o fun r => attempt (k r)

/-- Replace the failure of `p`. -/
def mapErr (g : ε → ε') : Prog O R ε α → Prog O R ε' α
  | ret a => ret a
  | fail e => fail (g e)
  | call o k => call o fun r => mapErr g (k r)

instance : MonadExcept ε (Prog O R ε) where
  throw := fail
  tryCatch p h := attempt p >>= fun
    | .ok a => ret a
    | .error e => h e

/-- Run `f` on the elements of a list, in order, stopping at the first failure. -/
def forEach (f : α → Prog O R ε Unit) : List α → Prog O R ε Unit
  | [] => ret ()
  | a :: as => bind (f a) fun _ => forEach f as

@[simp] theorem pure_eq (a : α) : (pure a : Prog O R ε α) = ret a := rfl

@[simp] theorem throw_eq (e : ε) : (throw e : Prog O R ε α) = fail e := rfl

@[simp] theorem ret_bind (a : α) (f : α → Prog O R ε β) : (ret a >>= f) = f a := rfl

@[simp] theorem fail_bind (e : ε) (f : α → Prog O R ε β) : (fail e >>= f) = fail e := rfl

@[simp] theorem call_bind (o : O) (k : R o → Prog O R ε α) (f : α → Prog O R ε β) :
    (call o k >>= f) = call o fun r => k r >>= f := rfl

theorem bind_ret (p : Prog O R ε α) : bind p ret = p := by
  induction p with
  | ret a => rfl
  | fail e => rfl
  | call o k ih => exact congrArg (call o) (funext ih)

theorem bind_assoc {γ : Type} (p : Prog O R ε α) (f : α → Prog O R ε β)
    (g : β → Prog O R ε γ) : bind (bind p f) g = bind p fun a => bind (f a) g := by
  induction p with
  | ret a => rfl
  | fail e => rfl
  | call o k ih => exact congrArg (call o) (funext ih)

instance : LawfulMonad (Prog O R ε) :=
  LawfulMonad.mk' _ (fun p => bind_ret p) (fun _ _ => rfl) (fun p f g => bind_assoc p f g)

/-! ### Whole runs -/

section Exec

variable {S : Type} (step : (o : O) → S → R o → S → Prop)

/-- `Exec step p s r s'`: run alone from `s`, the program `p` ends with the
outcome `r` in the state `s'`. -/
def Exec : Prog O R ε α → S → Except ε α → S → Prop
  | ret a, s, r, s' => r = .ok a ∧ s' = s
  | fail e, s, r, s' => r = .error e ∧ s' = s
  | call o k, s, r, s' => ∃ x s₁, step o s x s₁ ∧ Exec (k x) s₁ r s'

variable {step} {s s' : S}
  {r : Except ε α} {e : ε} {c : Prop}

@[simp] theorem exec_ret {a : α} :
    Exec step (ret a) s r s' ↔ r = .ok a ∧ s' = s := Iff.rfl

@[simp] theorem exec_fail :
    Exec step (fail e) s r s' ↔ r = .error e ∧ s' = s := Iff.rfl

theorem exec_call {o : O} {k : R o → Prog O R ε α} :
    Exec step (call o k) s r s' ↔ ∃ x s₁, step o s x s₁ ∧ Exec step (k x) s₁ r s' := Iff.rfl

theorem exec_op {o : O} {r : Except ε (R o)} :
    Exec step (op o) s r s' ↔ ∃ x, r = .ok x ∧ step o s x s' := by
  constructor
  · rintro ⟨x, s₁, hstep, rfl, rfl⟩
    exact ⟨x, rfl, hstep⟩
  · rintro ⟨x, rfl, hstep⟩
    exact ⟨x, s', hstep, rfl, rfl⟩

/-- **Inversion of a sequence**: either the first part fails, or it ends with a
value from which the second part runs. -/
theorem exec_bind {r : Except ε β} :
    Exec step (p >>= f) s r s' ↔
      (∃ e, r = .error e ∧ Exec step p s (.error e) s') ∨
      ∃ a s₁, Exec step p s (.ok a) s₁ ∧ Exec step (f a) s₁ r s' := by
  induction p generalizing s with
  | ret a => simp
  | fail e => simp
  | call o k ih =>
      simp only [call_bind, exec_call, ih]
      constructor
      · rintro ⟨x, s₁, hx, ⟨e, rfl, he⟩ | ⟨a, s₂, ha, hf⟩⟩
        · exact .inl ⟨e, rfl, x, s₁, hx, he⟩
        · exact .inr ⟨a, s₂, ⟨x, s₁, hx, ha⟩, hf⟩
      · rintro (⟨e, rfl, x, s₁, hx, he⟩ | ⟨a, s₂, ⟨x, s₁, hx, ha⟩, hf⟩)
        · exact ⟨x, s₁, hx, .inl ⟨e, rfl, he⟩⟩
        · exact ⟨x, s₁, hx, .inr ⟨a, s₂, ha, hf⟩⟩

/-- A successful run of a sequence is a successful run of both parts. -/
theorem exec_bind_ok {b : β} :
    Exec step (p >>= f) s (.ok b) s' ↔
      ∃ a s₁, Exec step p s (.ok a) s₁ ∧ Exec step (f a) s₁ (.ok b) s' := by
  simp [exec_bind]

@[simp] theorem exec_ofExcept {x : Except ε α} :
    Exec step (ofExcept x) s r s' ↔ r = x ∧ s' = s := by
  cases x <;> rfl

@[simp] theorem exec_throwIf [Decidable c] {r : Except ε Unit} :
    Exec step (throwIf c e) s r s' ↔ (r = if c then .error e else .ok ()) ∧ s' = s := by
  unfold throwIf
  split <;> rfl

theorem exec_throwIf_ok [Decidable c] {u : Unit} :
    Exec step (throwIf c e) s (.ok u) s' ↔ ¬ c ∧ s' = s := by
  by_cases h : c <;> simp [h]

theorem exec_runIf [Decidable c] {p : Prog O R ε Unit} {r : Except ε Unit} :
    Exec step (runIf c p) s r s' ↔ (c ∧ Exec step p s r s') ∨ (¬ c ∧ r = .ok () ∧ s' = s) := by
  by_cases h : c <;> simp [runIf, h]

theorem exec_attempt {r : Except ε' (Except ε α)} :
    Exec step (attempt p) s r s' ↔ ∃ x, r = .ok x ∧ Exec step p s x s' := by
  induction p generalizing s with
  | ret a => simp [attempt, and_comm]
  | fail e => simp [attempt, and_comm]
  | call o k ih =>
      simp only [attempt, exec_call, ih]
      constructor
      · rintro ⟨x, s₁, hx, y, rfl, hy⟩
        exact ⟨y, rfl, x, s₁, hx, hy⟩
      · rintro ⟨y, rfl, x, s₁, hx, hy⟩
        exact ⟨x, s₁, hx, y, rfl, hy⟩

theorem exec_mapErr_ok {g : ε → ε'} {a : α} :
    Exec step (mapErr g p) s (.ok a) s' ↔ Exec step p s (.ok a) s' := by
  induction p generalizing s with
  | ret a => simp [mapErr]
  | fail e => simp [mapErr]
  | call o k ih => simp only [mapErr, exec_call, ih]

theorem exec_mapErr_error {g : ε → ε'} (h : Exec step p s (.error e) s') :
    Exec step (mapErr g p) s (.error (g e)) s' := by
  induction p generalizing s with
  | ret a => cases h.1
  | fail e' =>
      obtain ⟨he, rfl⟩ := h
      cases he
      exact ⟨rfl, rfl⟩
  | call o k ih =>
      obtain ⟨x, s₁, hstep, hk⟩ := h
      exact ⟨x, s₁, hstep, ih x hk⟩

end Exec

/-! ### The operations a program can call -/

/-- Every operation that the program can ever call satisfies `φ`. -/
def Within (φ : O → Prop) : Prog O R ε α → Prop
  | ret _ => True
  | fail _ => True
  | call o k => φ o ∧ ∀ r, Within φ (k r)

section Within

variable {φ ψ : O → Prop}

@[simp] theorem within_ret (a : α) : Within φ (ret a : Prog O R ε α) := trivial

@[simp] theorem within_fail (e : ε) : Within φ (fail e : Prog O R ε α) := trivial

@[simp] theorem within_op {o : O} : Within φ (op o : Prog O R ε (R o)) ↔ φ o := by
  simp [op, Within]

@[simp] theorem within_call {o : O} {k : R o → Prog O R ε α} :
    Within φ (call o k) ↔ φ o ∧ ∀ r, Within φ (k r) := Iff.rfl

@[simp] theorem within_ofExcept (x : Except ε α) :
    Within φ (ofExcept x : Prog O R ε α) := by
  cases x <;> trivial

@[simp] theorem within_throwIf (c : Prop) [Decidable c] (e : ε) :
    Within φ (throwIf c e : Prog O R ε Unit) := by
  unfold throwIf
  split <;> trivial

theorem within_of_forall (h : ∀ o, φ o) (p : Prog O R ε α) : Within φ p := by
  induction p with
  | ret a => trivial
  | fail e => trivial
  | call o k ih => exact ⟨h o, ih⟩

theorem within_bind (hp : Within φ p) (hf : ∀ a, Within φ (f a)) : Within φ (p >>= f) := by
  induction p with
  | ret a => exact hf a
  | fail e => trivial
  | call o k ih => exact ⟨hp.1, fun r => ih r (hp.2 r)⟩

theorem within_runIf {c : Prop} [Decidable c] {p : Prog O R ε Unit} (hp : c → Within φ p) :
    Within φ (runIf c p) := by
  unfold runIf
  split
  · next h => exact hp h
  · trivial

theorem within_attempt (hp : Within φ p) :
    Within φ (attempt p : Prog O R ε' (Except ε α)) := by
  induction p with
  | ret a => trivial
  | fail e => trivial
  | call o k ih => exact ⟨hp.1, fun r => ih r (hp.2 r)⟩

theorem within_mapErr {g : ε → ε'} (hp : Within φ p) :
    Within φ (mapErr g p) := by
  induction p with
  | ret a => trivial
  | fail e => trivial
  | call o k ih => exact ⟨hp.1, fun r => ih r (hp.2 r)⟩

theorem within_forEach {f : α → Prog O R ε Unit} {l : List α}
    (hf : ∀ a ∈ l, Within φ (f a)) : Within φ (forEach f l) := by
  induction l with
  | nil => trivial
  | cons a l ih =>
      exact within_bind (hf a (by simp)) fun _ => ih fun b hb => hf b (by simp [hb])

theorem Within.mono (hp : Within φ p) (h : ∀ o, φ o → ψ o) :
    Within ψ p := by
  induction p with
  | ret a => trivial
  | fail e => trivial
  | call o k ih => exact ⟨h o hp.1, fun r => ih r (hp.2 r)⟩

theorem within_and (h₁ : Within φ p) (h₂ : Within ψ p) :
    Within (fun o => φ o ∧ ψ o) p := by
  induction p with
  | ret a => trivial
  | fail e => trivial
  | call o k ih => exact ⟨⟨h₁.1, h₂.1⟩, fun r => ih r (h₁.2 r) (h₂.2 r)⟩

variable {S : Type} {step : (o : O) → S → R o → S → Prop}

/-- A relation that every operation of the program keeps, the whole run keeps. -/
theorem Exec.rel {T : S → S → Prop} {s s' : S} {r : Except ε α} (h : Exec step p s r s')
    (hp : Within φ p) (hrefl : ∀ s, T s s) (htrans : ∀ s₁ s₂ s₃, T s₁ s₂ → T s₂ s₃ → T s₁ s₃)
    (hstep : ∀ o, φ o → ∀ s x s₁, step o s x s₁ → T s s₁) : T s s' := by
  induction p generalizing s with
  | ret a => obtain ⟨-, rfl⟩ := h; exact hrefl _
  | fail e => obtain ⟨-, rfl⟩ := h; exact hrefl _
  | call o k ih =>
      obtain ⟨x, s₁, hx, hk⟩ := h
      exact htrans _ _ _ (hstep o hp.1 _ _ _ hx) (ih x hk (hp.2 x))

/-- The special case of an invariant. -/
theorem Exec.inv {J : S → Prop} {s s' : S} {r : Except ε α} (h : Exec step p s r s')
    (hp : Within φ p) (hstep : ∀ o, φ o → ∀ s x s₁, J s → step o s x s₁ → J s₁) (hs : J s) : J s' :=
  h.rel (T := fun s s' => J s → J s') hp (fun _ h => h)
    (fun _ _ _ h₁ h₂ h => h₂ (h₁ h)) (fun o ho s x s₁ hx hi => hstep o ho s x s₁ hi hx) hs

end Within

/-! ### Runs in which every operation succeeds -/

section Answered

variable {S : Type} {step : (o : O) → S → R o → S → Prop}

/-- The program fails at the first answer outside `A`. -/
def Strict (A : (o : O) → R o → Prop) : Prog O R ε α → Prop
  | ret _ => True
  | fail _ => True
  | call o k => ∀ x, (¬ A o x → ∃ e, k x = fail e) ∧ Strict A (k x)

/-- The steps whose answer is in `A`. -/
def answering (step : (o : O) → S → R o → S → Prop) (A : (o : O) → R o → Prop) :
    (o : O) → S → R o → S → Prop :=
  fun o s x s' => step o s x s' ∧ A o x

variable {A : (o : O) → R o → Prop}
  {s s' : S}

theorem strict_bind (hp : Strict A p) (hf : ∀ a, Strict A (f a)) : Strict A (p >>= f) := by
  induction p with
  | ret a => exact hf a
  | fail e => trivial
  | call o k ih =>
      intro x
      refine ⟨fun hx => ?_, ih x (hp x).2⟩
      obtain ⟨e, he⟩ := (hp x).1 hx
      refine ⟨e, ?_⟩
      show k x >>= f = fail e
      rw [he, fail_bind]

theorem strict_forEach {f : α → Prog O R ε Unit} {l : List α} (hf : ∀ a ∈ l, Strict A (f a)) :
    Strict A (forEach f l) := by
  induction l with
  | nil => trivial
  | cons a l ih =>
      exact strict_bind (hf a (by simp)) fun _ => ih fun b hb => hf b (by simp [hb])

/-- A strict program that succeeds has got only answers in `A`. -/
theorem Exec.answering (hp : Strict A p) {a : α} (h : Exec step p s (.ok a) s') :
    Exec (answering step A) p s (.ok a) s' := by
  induction p generalizing s with
  | ret b => exact h
  | fail e => exact h
  | call o k ih =>
      obtain ⟨x, s₁, hx, hk⟩ := h
      refine ⟨x, s₁, ⟨hx, ?_⟩, ih x (hp x).2 hk⟩
      by_contra hA
      obtain ⟨e, he⟩ := (hp x).1 hA
      rw [he] at hk
      cases hk.1

theorem Exec.mono {step' : (o : O) → S → R o → S → Prop} {r : Except ε α} (h : Exec step p s r s')
    (hstep : ∀ o s x s', step o s x s' → step' o s x s') :
    Exec step' p s r s' := by
  induction p generalizing s with
  | ret b => exact h
  | fail e => exact h
  | call o k ih =>
      obtain ⟨x, s₁, hx, hk⟩ := h
      exact ⟨x, s₁, hstep o s x s₁ hx, ih x hk⟩

/-- A run with answers in `A` is a run. -/
theorem Exec.of_answering {r : Except ε α} (h : Exec (Prog.answering step A) p s r s') :
    Exec step p s r s' :=
  h.mono fun _ _ _ _ hx => hx.1

end Answered

/-! ### Pre- and postconditions of whole runs

`I` is an invariant of the states between the steps that matter; it holds at the end
also when the program fails.  The postcondition is about the value it returns. -/

section Hoare

variable {S : Type} (step : (o : O) → S → R o → S → Prop) (I : S → Prop)

/-- Run alone from a state with `I` and `P`, the program ends with `I`, and with `Q` of
its value if it returns one. -/
def Hoare (P : S → Prop) (p : Prog O R ε α) (Q : α → S → Prop) : Prop :=
  ∀ s r s', I s → P s → Exec step p s r s' → I s' ∧ ∀ a, r = .ok a → Q a s'

variable {step I} {P P' : S → Prop} {Q Q' : α → S → Prop}

theorem hoare_mono (h : Hoare step I P' p Q') (hP : ∀ s, P s → P' s) (hQ : ∀ a s, Q' a s → Q a s) :
    Hoare step I P p Q := by
  intro s r s' hI hs hx
  obtain ⟨hI', hr⟩ := h s r s' hI (hP s hs) hx
  exact ⟨hI', fun a ha => hQ a s' (hr a ha)⟩

theorem hoare_ret {a : α} (h : ∀ s, I s → P s → Q a s) :
    Hoare step I P (ret a : Prog O R ε α) Q := by
  rintro s r s' hI hs ⟨rfl, rfl⟩
  refine ⟨hI, fun b hb => ?_⟩
  cases hb
  exact h _ hI hs

theorem hoare_fail {e : ε} : Hoare step I P (fail e : Prog O R ε α) Q := by
  rintro s r s' hI hs ⟨rfl, rfl⟩
  exact ⟨hI, fun b hb => by cases hb⟩

theorem hoare_bind {Q : β → S → Prop} {M : α → S → Prop} (hp : Hoare step I P p M)
    (hf : ∀ a, Hoare step I (M a) (f a) Q) :
    Hoare step I P (p >>= f) Q := by
  intro s r s' hI hs hx
  rcases exec_bind.mp hx with ⟨e, rfl, he⟩ | ⟨a, s₁, ha, hk⟩
  · exact ⟨(hp s _ s' hI hs he).1, fun b hb => by cases hb⟩
  · obtain ⟨hI₁, hM⟩ := hp s _ s₁ hI hs ha
    exact hf a s₁ r s' hI₁ (hM a rfl) hk

/-- The rule for a first part whose postcondition is about its value only. -/
theorem hoare_seq {Q : β → S → Prop} {F : α → Prop} (hp : Hoare step I P p fun a _ => F a)
    (hf : ∀ a, F a → Hoare step I (fun _ => True) (f a) Q) : Hoare step I P (p >>= f) Q := by
  refine hoare_bind hp fun a s r s' hI ha hx => ?_
  exact hf a ha s r s' hI trivial hx

theorem hoare_throwIf {c : Prop} [Decidable c] {e : ε} {Q : Unit → S → Prop}
    (h : ∀ s, I s → P s → ¬ c → Q () s) : Hoare step I P (throwIf c e : Prog O R ε Unit) Q := by
  unfold throwIf
  split
  · exact hoare_fail
  · next hc => exact hoare_ret fun s hI hs => h s hI hs hc

theorem hoare_runIf {c : Prop} [Decidable c] {p : Prog O R ε Unit} {Q : Unit → S → Prop}
    (hp : c → Hoare step I P p Q) (h : ¬ c → ∀ s, I s → P s → Q () s) :
    Hoare step I P (runIf c p) Q := by
  unfold runIf
  split
  · next hc => exact hp hc
  · next hc => exact hoare_ret (h hc)

theorem hoare_mapErr {g : ε → ε'} (h : Hoare step I P p Q) :
    Hoare step I P (mapErr g p) Q := by
  intro s r s' hI hs hx
  rcases r with e | a
  · suffices ∃ e', Exec step p s (.error e') s' by
      obtain ⟨e', he⟩ := this
      exact ⟨(h s _ s' hI hs he).1, fun b hb => by cases hb⟩
    clear h hI hs
    induction p generalizing s with
    | ret a => cases hx.1
    | fail e' => exact ⟨e', rfl, hx.2⟩
    | call o k ih =>
        obtain ⟨x, s₁, hstep, hk⟩ := hx
        obtain ⟨e', he⟩ := ih x s₁ hk
        exact ⟨e', x, s₁, hstep, he⟩
  · obtain ⟨hI', hQ⟩ := h s _ s' hI hs (exec_mapErr_ok.mp hx)
    refine ⟨hI', fun b hb => ?_⟩
    cases hb
    exact hQ a rfl

/-- Trying a program: on its failure only the invariant is left. -/
theorem hoare_attempt {Q : α → S → Prop} (h : Hoare step I P p Q) :
    Hoare step I P (attempt p : Prog O R ε' (Except ε α)) fun r s => ∀ a, r = .ok a → Q a s := by
  intro s r s' hI hs hx
  obtain ⟨x, rfl, hp⟩ := exec_attempt.mp hx
  obtain ⟨hI', hQ⟩ := h s x s' hI hs hp
  refine ⟨hI', fun y hy => ?_⟩
  cases hy
  exact hQ

/-- **Frame rule.**  What every operation of `p` keeps together with the invariant, `p`
keeps. -/
theorem hoare_of_within {φ : O → Prop} (hp : Within φ p)
    (hstep : ∀ o, φ o → ∀ s x s₁, I s → P s → step o s x s₁ → I s₁ ∧ P s₁) :
    Hoare step I P p fun _ => P := by
  intro s r s' hI hs hx
  have h := hx.inv (J := fun s => I s ∧ P s) hp
    (fun o ho s x s₁ hs hx => hstep o ho s x s₁ hs.1 hs.2 hx) ⟨hI, hs⟩
  exact ⟨h.1, fun _ _ => h.2⟩

end Hoare

/-! ### All outcomes of a run alone -/

section Outcomes

variable {S : Type} (step : (o : O) → S → R o → S → Prop)

/-- Run alone from `s`, the program can only end in `Q`, whatever its outcome. -/
def Outcomes (p : Prog O R ε α) (s : S) (Q : Except ε α → S → Prop) : Prop :=
  ∀ r s', Exec step p s r s' → Q r s'

variable {step} {s : S} {Q Q' : Except ε α → S → Prop}

theorem outcomes_ret {a : α} (h : Q (.ok a) s) : Outcomes step (ret a) s Q := by
  rintro r s' ⟨rfl, rfl⟩
  exact h

theorem outcomes_fail {e : ε} (h : Q (.error e) s) : Outcomes step (fail e) s Q := by
  rintro r s' ⟨rfl, rfl⟩
  exact h

theorem outcomes_call {o : O} {k : R o → Prog O R ε α}
    (h : ∀ x s₁, step o s x s₁ → Outcomes step (k x) s₁ Q) : Outcomes step (call o k) s Q := by
  rintro r s' ⟨x, s₁, hx, hk⟩
  exact h x s₁ hx r s' hk

theorem outcomes_mono (h : Outcomes step p s Q') (hQ : ∀ r s, Q' r s → Q r s) :
    Outcomes step p s Q := fun r s' hx => hQ r s' (h r s' hx)

theorem outcomes_bind {Q : Except ε β → S → Prop} (h : Outcomes step p s fun r s₁ => match r with
      | .ok a => Outcomes step (f a) s₁ Q
      | .error e => Q (.error e) s₁) : Outcomes step (p >>= f) s Q := by
  intro r s' hx
  rcases exec_bind.mp hx with ⟨e, rfl, he⟩ | ⟨a, s₁, ha, hk⟩
  · exact h _ _ he
  · exact h _ _ ha r s' hk

/-- What is found is thrown away. -/
theorem outcomes_unit {J : S → Prop} (h : Outcomes step p s fun _ s' => J s') :
    Outcomes step (p >>= fun _ => ret ()) s fun _ s' => J s' := by
  refine outcomes_bind (outcomes_mono h fun r s₁ hr => ?_)
  rcases r with e | a
  · exact hr
  · exact outcomes_ret hr

theorem outcomes_attempt {Q : Except ε' (Except ε α) → S → Prop}
    (h : Outcomes step p s fun r s₁ => Q (.ok r) s₁) : Outcomes step (attempt p) s Q := by
  intro r s' hx
  obtain ⟨x, rfl, hp⟩ := exec_attempt.mp hx
  exact h x s' hp

theorem outcomes_throwIf {c : Prop} [Decidable c] {e : ε} {Q : Except ε Unit → S → Prop}
    (hok : ¬ c → Q (.ok ()) s) (hfail : c → Q (.error e) s) :
    Outcomes step (throwIf c e) s Q := by
  unfold throwIf
  split
  · next h => exact outcomes_fail (hfail h)
  · next h => exact outcomes_ret (hok h)

theorem outcomes_mapErr {g : ε → ε'} {Q : Except ε' α → S → Prop}
    (h : Outcomes step p s fun r s₁ => Q (r.mapError g) s₁) : Outcomes step (mapErr g p) s Q := by
  induction p generalizing s with
  | ret a => exact outcomes_ret (h _ _ ⟨rfl, rfl⟩)
  | fail e => exact outcomes_fail (h _ _ ⟨rfl, rfl⟩)
  | call o k ih =>
      refine outcomes_call fun x s₁ hx => ih x fun r s' hk => ?_
      exact h r s' ⟨x, s₁, hx, hk⟩

end Outcomes

/-! ### Weakest preconditions under interference

`I` holds whenever the program is scheduled, `Rl` is what the others may do to
the state in between (a preorder), and `G` is what each step of the program has
to keep for the others. -/

section Wp

variable {S : Type} (step : (o : O) → S → R o → S → Prop) (I : S → Prop)
  (Rl G : S → S → Prop)

/-- Whatever the others do, every step of `p` keeps `I` and `G`, and `p` can only
end in `Q`. -/
def wp : Prog O R ε α → (Except ε α → S → Prop) → S → Prop
  | ret a, Q, s => ∀ s₁, Rl s s₁ → I s₁ → Q (.ok a) s₁
  | fail e, Q, s => ∀ s₁, Rl s s₁ → I s₁ → Q (.error e) s₁
  | call o k, Q, s => ∀ s₁, Rl s s₁ → I s₁ → ∀ x s₂, step o s₁ x s₂ →
      I s₂ ∧ G s₁ s₂ ∧ wp (k x) Q s₂

variable {step I Rl G} {Q Q' : Except ε α → S → Prop} {s s' : S}

theorem wp_mono (h : wp step I Rl G p Q s) (hQ : ∀ r s, Q r s → Q' r s) :
    wp step I Rl G p Q' s := by
  induction p generalizing s with
  | ret a => exact fun s₁ hr hi => hQ _ _ (h s₁ hr hi)
  | fail e => exact fun s₁ hr hi => hQ _ _ (h s₁ hr hi)
  | call o k ih =>
      intro s₁ hr hi x s₂ hx
      obtain ⟨hi', hg, hk⟩ := h s₁ hr hi x s₂ hx
      exact ⟨hi', hg, ih x hk⟩

/-- A precondition survives what the others do. -/
theorem wp_stable (htrans : ∀ s₁ s₂ s₃, Rl s₁ s₂ → Rl s₂ s₃ → Rl s₁ s₃) (h : wp step I Rl G p Q s)
    (hr : Rl s s') :
    wp step I Rl G p Q s' := by
  cases p with
  | ret a => exact fun s₁ hr' hi => h s₁ (htrans _ _ _ hr hr') hi
  | fail e => exact fun s₁ hr' hi => h s₁ (htrans _ _ _ hr hr') hi
  | call o k => exact fun s₁ hr' hi => h s₁ (htrans _ _ _ hr hr') hi

/-- It is enough to prove a precondition where the program is next scheduled. -/
theorem wp_of_scheduled (hrefl : ∀ s, Rl s s) (h : ∀ s₁, Rl s s₁ → I s₁ → wp step I Rl G p Q s₁) :
    wp step I Rl G p Q s := by
  cases p with
  | ret a => exact fun s₁ hr hi => h s₁ hr hi s₁ (hrefl _) hi
  | fail e => exact fun s₁ hr hi => h s₁ hr hi s₁ (hrefl _) hi
  | call o k => exact fun s₁ hr hi => h s₁ hr hi s₁ (hrefl _) hi

theorem wp_bind (hrefl : ∀ s, Rl s s) {Q : Except ε β → S → Prop}
    (h : wp step I Rl G p (fun r s => match r with
      | .ok a => wp step I Rl G (f a) Q s
      | .error e => Q (.error e) s) s) : wp step I Rl G (p >>= f) Q s := by
  induction p generalizing s with
  | ret a => exact wp_of_scheduled hrefl fun s₁ hr hi => h s₁ hr hi
  | fail e => exact h
  | call o k ih =>
      intro s₁ hr hi x s₂ hx
      obtain ⟨hi', hg, hk⟩ := h s₁ hr hi x s₂ hx
      exact ⟨hi', hg, ih x hk⟩

/-- The rule for a sequence whose failures are allowed to end anyhow. -/
theorem wp_seq (hrefl : ∀ s, Rl s s) {Q : Except ε β → S → Prop} {P : α → S → Prop}
    (hp : wp step I Rl G p (fun r s => ∀ a, r = .ok a → P a s) s)
    (hf : ∀ a s, P a s → wp step I Rl G (f a) Q s) (he : ∀ e s, Q (.error e) s) :
    wp step I Rl G (p >>= f) Q s := by
  refine wp_bind hrefl (wp_mono hp fun r s hr => ?_)
  cases r with
  | ok a => exact hf a s (hr a rfl)
  | error e => exact he e s

theorem wp_attempt {Q : Except ε' (Except ε α) → S → Prop}
    (h : wp step I Rl G p (fun r s => Q (.ok r) s) s) :
    wp step I Rl G (attempt p) Q s := by
  induction p generalizing s with
  | ret a => exact h
  | fail e => exact h
  | call o k ih =>
      intro s₁ hr hi x s₂ hx
      obtain ⟨hi', hg, hk⟩ := h s₁ hr hi x s₂ hx
      exact ⟨hi', hg, ih x hk⟩

theorem wp_mapErr {g : ε → ε'} {Q : Except ε' α → S → Prop}
    (h : wp step I Rl G p (fun r s => Q (r.mapError g) s) s) :
    wp step I Rl G (mapErr g p) Q s := by
  induction p generalizing s with
  | ret a => exact h
  | fail e => exact h
  | call o k ih =>
      intro s₁ hr hi x s₂ hx
      obtain ⟨hi', hg, hk⟩ := h s₁ hr hi x s₂ hx
      exact ⟨hi', hg, ih x hk⟩

/-- **Frame rule.**  If every operation of `p` keeps `I`, `G` and a stable
assertion `P`, then `P` still holds when `p` ends. -/
theorem wp_of_within {φ : O → Prop} {P : S → Prop} (hp : Within φ p)
    (hstable : ∀ s s₁, P s → Rl s s₁ → P s₁)
    (hstep : ∀ o, φ o → ∀ s x s₁, I s → P s → step o s x s₁ → I s₁ ∧ G s s₁ ∧ P s₁) (hs : P s) :
    wp step I Rl G p (fun _ s => P s) s := by
  induction p generalizing s with
  | ret a => exact fun s₁ hr _ => hstable _ _ hs hr
  | fail e => exact fun s₁ hr _ => hstable _ _ hs hr
  | call o k ih =>
      intro s₁ hr hi x s₂ hx
      obtain ⟨hi', hg, hP⟩ := hstep o hp.1 _ _ _ hi (hstable _ _ hs hr) hx
      exact ⟨hi', hg, ih x (hp.2 x) hP⟩

end Wp

/-! ### Invariants that hold all the time

`Keeps p F`: whatever the others do meanwhile that keeps the invariant, each operation of `p`
keeps it, too, and a value that `p` returns satisfies `F`. -/

section Keeps

variable {S : Type} (step : (o : O) → S → R o → S → Prop) (I : S → Prop)

def Keeps : Prog O R ε α → (α → Prop) → Prop
  | ret a, F => F a
  | fail _, _ => True
  | call o k, F => ∀ s x s', I s → step o s x s' → I s' ∧ Keeps (k x) F

variable {step I} {F F' : α → Prop}

theorem keeps_ret {a : α} (h : F a) : Keeps step I (ret a : Prog O R ε α) F := h

theorem keeps_fail {e : ε} : Keeps step I (fail e : Prog O R ε α) F := trivial

theorem keeps_call {o : O} {k : R o → Prog O R ε α}
    (h : ∀ s x s', I s → step o s x s' → I s' ∧ Keeps step I (k x) F) :
    Keeps step I (call o k) F := h

theorem keeps_mono (h : Keeps step I p F) (hF : ∀ a, F a → F' a) :
    Keeps step I p F' := by
  induction p with
  | ret a => exact hF a h
  | fail e => trivial
  | call o k ih =>
      intro s x s' hI hx
      obtain ⟨hI', hk⟩ := h s x s' hI hx
      exact ⟨hI', ih x hk⟩

theorem keeps_bind {Fb : β → Prop} (hp : Keeps step I p F) (hf : ∀ a, F a → Keeps step I (f a) Fb) :
    Keeps step I (p >>= f) Fb := by
  induction p with
  | ret a => exact hf a hp
  | fail e => trivial
  | call o k ih =>
      intro s x s' hI hx
      obtain ⟨hI', hk⟩ := hp s x s' hI hx
      exact ⟨hI', ih x hk⟩

theorem keeps_throwIf {c : Prop} [Decidable c] {e : ε} :
    Keeps step I (throwIf c e : Prog O R ε Unit) fun _ => ¬ c := by
  unfold throwIf
  split
  · trivial
  · next hc => exact hc

theorem keeps_runIf {c : Prop} [Decidable c] {p : Prog O R ε Unit}
    (hp : c → Keeps step I p fun _ => True) : Keeps step I (runIf c p) fun _ => True := by
  unfold runIf
  split
  · next hc => exact hp hc
  · trivial

theorem keeps_attempt (hp : Keeps step I p F) :
    Keeps step I (attempt p : Prog O R ε' (Except ε α)) fun r => ∀ a, r = .ok a → F a := by
  induction p with
  | ret a =>
      intro b hb
      cases hb
      exact hp
  | fail e =>
      intro b hb
      cases hb
  | call o k ih =>
      intro s x s' hI hx
      obtain ⟨hI', hk⟩ := hp s x s' hI hx
      exact ⟨hI', ih x hk⟩

theorem keeps_forEach {f : α → Prog O R ε Unit} {l : List α}
    (hf : ∀ a ∈ l, Keeps step I (f a) fun _ => True) :
    Keeps step I (forEach f l) fun _ => True := by
  induction l with
  | nil => trivial
  | cons a l ih =>
      obtain ⟨ha, hl⟩ := List.forall_mem_cons.mp hf
      exact keeps_bind ha fun _ _ => ih hl

/-- A part of which it only matters that each of its operations keeps the invariant. -/
theorem keeps_of_within {φ : O → Prop} (hp : Within φ p)
    (hstep : ∀ o, φ o → ∀ s x s', I s → step o s x s' → I s') :
    Keeps step I p fun _ => True := by
  induction p with
  | ret a => trivial
  | fail e => trivial
  | call o k ih =>
      intro s x s' hI hx
      exact ⟨hstep o hp.1 s x s' hI hx, ih x (hp.2 x)⟩

/-- What a program returns satisfies `F`, whatever it is answered. -/
def Returns (F : α → Prop) : Prog O R ε α → Prop
  | ret a => F a
  | fail _ => True
  | call _ k => ∀ x, Returns F (k x)

theorem returns_bind {Fb : β → Prop} (hf : ∀ a, Returns Fb (f a)) : Returns Fb (p >>= f) := by
  induction p with
  | ret a => exact hf a
  | fail e => trivial
  | call o k ih => exact fun x => ih x

theorem Keeps.returns (h : Keeps step I p F) (hr : Returns F' p) :
    Keeps step I p fun a => F a ∧ F' a := by
  induction p with
  | ret a => exact ⟨h, hr⟩
  | fail e => trivial
  | call o k ih =>
      intro s x s' hI hx
      obtain ⟨hI', hk⟩ := h s x s' hI hx
      exact ⟨hI', ih x hk (hr x)⟩

/-- Run alone. -/
theorem Keeps.exec (h : Keeps step I p F) {s s' : S} {r : Except ε α} (hI : I s)
    (hx : Exec step p s r s') : I s' ∧ ∀ a, r = .ok a → F a := by
  induction p generalizing s with
  | ret a =>
      obtain ⟨rfl, rfl⟩ := hx
      refine ⟨hI, fun b hb => ?_⟩
      cases hb
      exact h
  | fail e =>
      obtain ⟨rfl, rfl⟩ := hx
      exact ⟨hI, fun b hb => by cases hb⟩
  | call o k ih =>
      obtain ⟨x, s₁, hstep, hk⟩ := hx
      obtain ⟨hI₁, hrest⟩ := h s x s₁ hI hstep
      exact ih x hrest hI₁ hk

end Keeps

/-! ### How a program can end -/

section Ends

variable {E : ε → Prop} {F F' : α → Prop} {G : β → Prop}

/-- What a program returns satisfies `F`, and what it fails with `E`, whatever it is answered. -/
def Ends (E : ε → Prop) (F : α → Prop) : Prog O R ε α → Prop
  | ret a => F a
  | fail e => E e
  | call _ k => ∀ x, Ends E F (k x)

theorem ends_bind (hp : Ends E F p) (hf : ∀ a, F a → Ends E G (f a)) : Ends E G (p >>= f) := by
  induction p with
  | ret a => exact hf a hp
  | fail e => exact hp
  | call o k ih => exact fun x => ih x (hp x)

theorem ends_throwIf {c : Prop} [Decidable c] {e : ε} (he : E e) :
    Ends E (fun _ => True) (throwIf c e : Prog O R ε Unit) := by
  unfold throwIf
  split
  · exact he
  · trivial

/-- A program that is tried does not fail. -/
theorem ends_attempt {E' : ε' → Prop} (hp : Ends E F p) :
    Ends E' (fun r => ∀ e, r = .error e → E e) (attempt p : Prog O R ε' (Except ε α)) := by
  induction p with
  | ret a => exact fun e h => by cases h
  | fail e =>
      intro e' h
      cases h
      exact hp
  | call o k ih => exact fun x => ih x (hp x)

/-- How a run ends. -/
theorem Ends.exec {S : Type} {step : (o : O) → S → R o → S → Prop} (hp : Ends E F p) {s s' : S}
    {r : Except ε α} (hx : Exec step p s r s') :
    (∀ e, r = .error e → E e) ∧ ∀ a, r = .ok a → F a := by
  induction p generalizing s with
  | ret a =>
      obtain ⟨rfl, -⟩ := hx
      refine ⟨fun e h => (by cases h), fun b h => ?_⟩
      cases h
      exact hp
  | fail e =>
      obtain ⟨rfl, -⟩ := hx
      refine ⟨fun e' h => ?_, fun b h => (by cases h)⟩
      cases h
      exact hp
  | call o k ih =>
      obtain ⟨x, s₁, -, hk⟩ := hx
      exact ih x (hp x) hk

end Ends

/-! ### Among others -/

/-- Before each operation the others may have changed the state, within what `I` allows. -/
def amid {S : Type} (I : S → Prop) (step : (o : O) → S → R o → S → Prop) (o : O) (_ : S) (x : R o)
    (s' : S) : Prop :=
  ∃ s₁, I s₁ ∧ step o s₁ x s'

end Prog
