/-
Rauthy/Lib/Tickets.lean

Tickets: values that are stored under a name drawn at random, found by whoever presents
the name, and taken away.  A name is not drawn twice, and each request stores a value at
most once under a name that it has drawn itself; so a ticket that has been taken away
never comes back, whatever the interleaving.

Main results:
  * `Tickets.Inv.op`: one operation keeps that invariant, and `Run.tickets` for all runs;
  * `Run.taken_once`: if a ticket is found by one request at a time, it is taken by at
    most one of those that have found it.
-/
import Rauthy.Lib.Pool

namespace Pool

variable {Q O : Type} {R : O → Type} {W ε α K : Type}

/-! ### The past of a run -/

section Past

variable {prog : Q → Prog O R ε α} {sem : (o : O) → W → R o → W → Prop}
  {C : W → Log Q O R (Except ε α) → Event Q O R (Except ε α) → Prop}
  {w₀ : W} {P : Pool Q O R W ε α}

/-- What holds in every state held before each event, and after it. -/
theorem Run.past {I : W → Log Q O R (Except ε α) → Prop}
    (hI : ∀ P, Run prog sem C (init w₀) P → I P.world P.log) (h : Run prog sem C (init w₀) P) :
    Log.Always (fun e l => ∃ w w', I w l ∧ C w l e ∧ I w' (e :: l) ∧
      ∀ t o x, e = .op t o x → sem o w x w' ∧ Log.Running t l) P.log := by
  induction h with
  | refl => trivial
  | @step P P' e hrun hs hC ih =>
      have hafter := hI _ (hrun.step hs hC)
      have hcons := hrun.consistent (.init w₀)
      cases hs with
      | start q ht => exact ⟨⟨_, _, hI _ hrun, hC, hafter, fun _ _ _ he => by cases he⟩, ih⟩
      | op ht hx =>
          refine ⟨⟨_, _, hI _ hrun, hC, hafter, ?_⟩, ih⟩
          rintro t o x ⟨⟩
          exact ⟨hx, (hcons.running _).mpr (by simp [ht])⟩
      | ret ht => exact ⟨⟨_, _, hI _ hrun, hC, hafter, fun _ _ _ he => by cases he⟩, ih⟩
      | fail ht => exact ⟨⟨_, _, hI _ hrun, hC, hafter, fun _ _ _ he => by cases he⟩, ih⟩

/-- A request that starts has not been seen before. -/
theorem Run.start_fresh {P₀ : Pool Q O R W ε α} (h : Run prog sem C P₀ P)
    (h₀ : Log.Always (fun e l => ∀ t q, e = .start t q → Log.Fresh t l) P₀.log) :
    Log.Always (fun e l => ∀ t q, e = .start t q → Log.Fresh t l) P.log := by
  induction h with
  | refl => exact h₀
  | step hrun hs _ ih =>
      cases hs with
      | start q ht =>
          refine ⟨?_, ih⟩
          rintro t q ⟨⟩
          exact ht
      | op _ _ => exact ⟨fun _ _ he => (by cases he), ih⟩
      | ret _ => exact ⟨fun _ _ he => (by cases he), ih⟩
      | fail _ => exact ⟨fun _ _ he => (by cases he), ih⟩

/-- The operations of a request come after its start. -/
theorem Run.op_after_start (h : Run prog sem C (init w₀) P) {t : ℕ} {q : Q} {o : O} {x : R o}
    {l₂ l₁ m₂ m₁ : Log Q O R (Except ε α)} (hl : P.log = l₂ ++ .start t q :: l₁)
    (hm : P.log = m₂ ++ .op t o x :: m₁) :
    ∃ r, m₁ = r ++ .start t q :: l₁ := by
  rcases Log.split_cases (hl.symm.trans hm) with ⟨he, -⟩ | ⟨-, r, hr⟩ | ⟨r, hr⟩
  · cases he
  · -- the operation would be older than the start
    have hfresh := (h.start_fresh trivial).of_suffix ⟨l₂, hl.symm⟩ t q rfl
    exact absurd rfl (hfresh (.op t o x) (by rw [hr]; simp))
  · exact ⟨r, hr⟩

/-- A request ends once. -/
theorem Run.done_unique (h : Run prog sem C (init w₀) P) {t : ℕ} {a a' : Except ε α}
    (ha : .done t a ∈ P.log) (ha' : .done t a' ∈ P.log) : a = a' := by
  induction h with
  | refl => cases ha
  | @step P P' e hrun hs _ ih =>
      have hcons := hrun.consistent (.init w₀)
      have hend : ∀ {t₁ : ℕ} {p : Prog O R ε α} {r : Except ε α}, P.threads t₁ = some p →
          .done t a ∈ .done t₁ r :: P.log → .done t a' ∈ .done t₁ r :: P.log → a = a' := by
        intro t₁ p r ht ha ha'
        have hno : ∀ r', .done t₁ r' ∉ P.log := ((hcons.running t₁).mpr (by simp [ht])).2
        rcases List.mem_cons.mp ha with he | hold
        · rcases List.mem_cons.mp ha' with he' | hold'
          · cases he
            cases he'
            rfl
          · cases he
            exact absurd hold' (hno a')
        · rcases List.mem_cons.mp ha' with he' | hold'
          · cases he'
            exact absurd hold (hno a)
          · exact ih hold hold'
      cases hs with
      | start q ht =>
          exact ih ((List.mem_cons.mp ha).resolve_left (by simp))
            ((List.mem_cons.mp ha').resolve_left (by simp))
      | op ht hx =>
          exact ih ((List.mem_cons.mp ha).resolve_left (by simp))
            ((List.mem_cons.mp ha').resolve_left (by simp))
      | ret ht => exact hend ht ha ha'
      | fail ht => exact hend ht ha ha'

/-- A condition may assume what holds in every state. -/
theorem Run.assuming {I : W → Prop} {P₀ : Pool Q O R W ε α}
    (hI : ∀ P, Run prog sem C P₀ P → I P.world) (h : Run prog sem C P₀ P) :
    Run prog sem (fun w l e => I w ∧ C w l e) P₀ P := by
  induction h with
  | refl => exact .refl
  | step hrun hs hC ih => exact ih.step hs ⟨hI _ hrun, hC⟩

/-- Each request has kept its promises, with every operation and at its end. -/
theorem Run.promises {A : Q → (o : O) → R o → Prop} {G : Q → List (Seen O R) → Seen O R → Prop}
    {F : Q → Except ε α → List (Seen O R) → Prop}
    (hprog : ∀ q, seenWp (A q) (G q) (prog q) (F q) [])
    (hA : ∀ w l t q o x w', .start t q ∈ l → sem o w x w' → C w l (.op t o x) → A q o x)
    (h : Run prog sem C (init w₀) P) :
    Log.Always (fun e l =>
      (∀ t o x, e = .op t o x → ∃ q, .start t q ∈ l ∧ G q (seenBy t l) ⟨o, x⟩) ∧
      ∀ t r, e = .done t r → ∃ q, .start t q ∈ l ∧ F q r (seenBy t l)) P.log := by
  refine (Run.inv_of_seen (A := A) (G := G) (F := F)
    (I := fun _ l => Log.Always (fun e l =>
      (∀ t o x, e = .op t o x → ∃ q, .start t q ∈ l ∧ G q (seenBy t l) ⟨o, x⟩) ∧
      ∀ t r, e = .done t r → ∃ q, .start t q ∈ l ∧ F q r (seenBy t l)) l)
    hprog (fun w l t q o x w' _ => hA w l t q o x w') trivial ?_ ?_ ?_ h).1
  · exact fun w l t q hI _ _ => ⟨⟨fun _ _ _ he => (by cases he), fun _ _ he => (by cases he)⟩, hI⟩
  · intro w l t q o x w' hI hq _ _ _ hG
    refine ⟨⟨?_, fun _ _ he => (by cases he)⟩, hI⟩
    rintro t' o' x' ⟨⟩
    exact ⟨q, hq, hG⟩
  · intro w l t q r hI hq _ _ hF
    refine ⟨⟨fun _ _ _ he => (by cases he), ?_⟩, hI⟩
    rintro t' r' ⟨⟩
    exact ⟨q, hq, hF⟩

end Past

/-! ### Tickets -/

/-- How the tickets of one kind are drawn, stored, found and taken. -/
structure Tickets (O : Type) (R : O → Type) (W K : Type) where
  /-- the name has been drawn before -/
  Issued : W → K → Prop
  /-- a value is stored under the name -/
  Holds : W → K → Prop
  Draws : (o : O) → R o → K → Prop
  Stores : O → K → Prop
  Finds : (o : O) → R o → K → Prop
  Takes : (o : O) → R o → K → Prop

namespace Tickets

/-- What the operations do to the store of the tickets. -/
structure Lawful (T : Tickets O R W K) (sem : (o : O) → W → R o → W → Prop) : Prop where
  mono : ∀ {o w x w'}, sem o w x w' → ∀ k, T.Issued w k → T.Issued w' k
  fresh : ∀ {o w x w'}, sem o w x w' → ∀ k, T.Draws o x k → ¬ T.Issued w k ∧ T.Issued w' k
  stored : ∀ {o w x w'}, sem o w x w' → ∀ k, T.Holds w' k → T.Holds w k ∨ T.Stores o k
  found : ∀ {o w x w'}, sem o w x w' → ∀ k, T.Finds o x k → T.Holds w k
  taken : ∀ {o w x w'}, sem o w x w' → ∀ k, T.Takes o x k → ¬ T.Holds w' k

section

variable (T : Tickets O R W K)

/-- What a request promises: it stores under a name that it has drawn, and has stored
nothing there since. -/
def Once (tr : List (Seen O R)) (s : Seen O R) : Prop :=
  ∀ k, T.Stores s.1 k → ∃ tr₂ s' tr₁, tr = tr₂ ++ s' :: tr₁ ∧ T.Draws s'.1 s'.2 k ∧
    ∀ v ∈ tr₂ ++ [s'], ¬ T.Stores v.1 k

def Drawn (t : ℕ) (k : K) (l : Log Q O R (Except ε α)) : Prop :=
  ∃ o x, .op t o x ∈ l ∧ T.Draws o x k

def Stored (t : ℕ) (k : K) (l : Log Q O R (Except ε α)) : Prop :=
  ∃ o x, .op t o x ∈ l ∧ T.Stores o k

def Found (t : ℕ) (k : K) (l : Log Q O R (Except ε α)) : Prop :=
  ∃ o x, .op t o x ∈ l ∧ T.Finds o x k

/-- The ticket was there at the beginning, or it has been stored since. -/
def Known (w₀ : W) (k : K) (l : Log Q O R (Except ε α)) : Prop :=
  T.Holds w₀ k ∨ ∃ t, T.Stored t k l

/-- The ticket has been taken away. -/
def Spent (w₀ : W) (k : K) (l : Log Q O R (Except ε α)) : Prop :=
  ∃ l₂ t o x l₁, l = l₂ ++ .op t o x :: l₁ ∧ T.Takes o x k ∧ T.Known w₀ k l₁

/-- The request has found the ticket and then taken it. -/
def Took (t : ℕ) (k : K) (l : Log Q O R (Except ε α)) : Prop :=
  ∃ l₂ o x l₁, l = l₂ ++ .op t o x :: l₁ ∧ T.Takes o x k ∧ T.Found t k l₁

/-- Among the requests that present a ticket, as `D` says, it is found only when no other
one that has found it is in flight. -/
def Alone (D : Q → K → Prop) (_ : W) (l : Log Q O R (Except ε α))
    (e : Event Q O R (Except ε α)) : Prop :=
  ∀ t q o x k, e = .op t o x → T.Finds o x k → .start t q ∈ l → D q k →
    ∀ t' q', t' ≠ t → .start t' q' ∈ l → D q' k → T.Found t' k l → ¬ Log.Running t' l

/-- The invariant of the tickets. -/
structure Inv (w₀ w : W) (l : Log Q O R (Except ε α)) : Prop where
  mono : ∀ k, T.Issued w₀ k → T.Issued w k
  drawn : ∀ t k, T.Drawn t k l → ¬ T.Issued w₀ k ∧ T.Issued w k
  /-- no name is drawn again -/
  once : Log.Always (fun e l => ∀ t o x k, e = .op t o x → T.Draws o x k → ∀ t', ¬ T.Drawn t' k l) l
  stored : Log.Always (fun e l => ∀ t o x k, e = .op t o x → T.Stores o k → T.Drawn t k l) l
  known : ∀ k, T.Holds w k → T.Known w₀ k l
  spent : ∀ k, T.Spent w₀ k l → ¬ T.Holds w k

end

variable {T : Tickets O R W K} {sem : (o : O) → W → R o → W → Prop} {w₀ w w' : W}
  {l : Log Q O R (Except ε α)} {e : Event Q O R (Except ε α)} {t : ℕ} {k : K} {o : O} {x : R o}

/-! What only grows with the log -/

theorem Stored.append (h : T.Stored t k l) (m : Log Q O R (Except ε α)) :
    T.Stored t k (m ++ l) := by
  obtain ⟨o, x, hmem, hs⟩ := h
  exact ⟨o, x, List.mem_append_right m hmem, hs⟩

theorem Known.append (h : T.Known w₀ k l) (m : Log Q O R (Except ε α)) :
    T.Known w₀ k (m ++ l) := by
  rcases h with h | ⟨t, h⟩
  · exact .inl h
  · exact .inr ⟨t, h.append m⟩

theorem Found.append (h : T.Found t k l) (m : Log Q O R (Except ε α)) : T.Found t k (m ++ l) := by
  obtain ⟨o, x, hmem, hf⟩ := h
  exact ⟨o, x, List.mem_append_right m hmem, hf⟩

theorem Spent.known (h : T.Spent w₀ k l) : T.Known w₀ k l := by
  obtain ⟨l₂, t, o, x, l₁, rfl, -, hk⟩ := h
  exact (hk.append [_]).append l₂

/-! One operation more -/

theorem drawn_op {t' : ℕ} (h : T.Drawn t' k (.op t o x :: l)) :
    T.Drawn t' k l ∨ t' = t ∧ T.Draws o x k := by
  obtain ⟨o', x', hmem, hd⟩ := h
  rcases List.mem_cons.mp hmem with he | hmem
  · cases he
    exact .inr ⟨rfl, hd⟩
  · exact .inl ⟨o', x', hmem, hd⟩

theorem spent_op (h : T.Spent w₀ k (.op t o x :: l)) :
    T.Spent w₀ k l ∨ T.Takes o x k ∧ T.Known w₀ k l := by
  obtain ⟨l₂, t', o', x', l₁, hl, ht, hk⟩ := h
  rcases l₂ with - | ⟨a, l₂⟩
  · obtain ⟨he, rfl⟩ := List.cons.inj hl
    cases he
    exact .inr ⟨ht, hk⟩
  · obtain ⟨-, rfl⟩ := List.cons.inj hl
    exact .inl ⟨l₂, t', o', x', l₁, rfl, ht, hk⟩

/-- A request that stores a ticket is the first to do so. -/
theorem Inv.not_known (hI : T.Inv w₀ w l) (h₀ : ∀ k, T.Holds w₀ k → T.Issued w₀ k)
    (hG : T.Once (seenBy t l) ⟨o, x⟩) (hs : T.Stores o k) : ¬ T.Known w₀ k l := by
  obtain ⟨tr₂, ⟨o', x'⟩, tr₁, htr, hd, hnone⟩ := hG k hs
  obtain ⟨l₂, l₁, hl, hseen, -⟩ := split_of_seenBy htr
  have hdrawn : T.Drawn t k l := ⟨o', x', by rw [hl]; simp, hd⟩
  rintro (h | ⟨t', o₁, x₁, hmem, hs₁⟩)
  · exact (hI.drawn t k hdrawn).1 (h₀ k h)
  · -- who has stored it before has drawn it before
    obtain ⟨m₂, m₁, hm⟩ := List.append_of_mem hmem
    obtain ⟨o₂, x₂, hmem₂, hd₂⟩ := hI.stored.of_suffix ⟨m₂, hm.symm⟩ t' o₁ x₁ k rfl hs₁
    obtain ⟨a, b, rfl⟩ := List.append_of_mem hmem₂
    have hm' : (m₂ ++ .op t' o₁ x₁ :: a) ++ .op t' o₂ x₂ :: b = l := by rw [hm]; simp
    rcases Log.split_cases (hl.symm.trans hm'.symm) with ⟨he, hb⟩ | ⟨-, r, hr⟩ | ⟨r, hr⟩
    · -- it is the same drawing, after which the request has stored nothing
      cases he
      have hsame : l₂ = m₂ ++ .op t o₁ x₁ :: a := by
        rw [hl, hb] at hm'
        exact (List.append_cancel_right hm').symm
      refine hnone ⟨o₁, x₁⟩ (List.mem_append_left _ ?_) hs₁
      rw [← hseen, hsame]
      exact mem_seenBy.mpr (by simp)
    · exact hI.once.of_suffix ⟨l₂, hl.symm⟩ t o' x' k rfl hd t' ⟨o₂, x₂, by rw [hr]; simp, hd₂⟩
    · exact hI.once.of_suffix ⟨_, hm'⟩ t' o₂ x₂ k rfl hd₂ t ⟨o', x', by rw [hr]; simp, hd⟩

/-- **One operation keeps the invariant.** -/
theorem Inv.op (hT : T.Lawful sem) (hI : T.Inv w₀ w l) (h₀ : ∀ k, T.Holds w₀ k → T.Issued w₀ k)
    (hx : sem o w x w') (hG : T.Once (seenBy t l) ⟨o, x⟩) : T.Inv w₀ w' (.op t o x :: l) where
  mono k h := hT.mono hx k (hI.mono k h)
  drawn t' k h := by
    rcases drawn_op h with h | ⟨-, hd⟩
    · exact ⟨(hI.drawn t' k h).1, hT.mono hx k (hI.drawn t' k h).2⟩
    · obtain ⟨hnew, hnow⟩ := hT.fresh hx k hd
      exact ⟨fun h => hnew (hI.mono k h), hnow⟩
  once := by
    refine ⟨?_, hI.once⟩
    rintro t₁ o₁ x₁ k ⟨⟩ hd t' h
    exact (hT.fresh hx k hd).1 (hI.drawn t' k h).2
  stored := by
    refine ⟨?_, hI.stored⟩
    rintro t₁ o₁ x₁ k ⟨⟩ hs
    obtain ⟨tr₂, ⟨o', x'⟩, tr₁, htr, hd, -⟩ := hG k hs
    exact ⟨o', x', mem_of_seenBy (by rw [htr]; simp), hd⟩
  known k h := by
    rcases hT.stored hx k h with h | hs
    · exact (hI.known k h).append [_]
    · exact .inr ⟨t, o, x, List.mem_cons_self, hs⟩
  spent k h := by
    rcases spent_op h with h | ⟨ht, -⟩
    · intro hh
      rcases hT.stored hx k hh with hh | hs
      · exact hI.spent k h hh
      · exact hI.not_known h₀ hG hs h.known
    · exact hT.taken hx k ht

theorem Inv.init : T.Inv w₀ w₀ ([] : Log Q O R (Except ε α)) where
  mono _ h := h
  drawn t k h := by
    obtain ⟨o, x, hmem, -⟩ := h
    cases hmem
  once := trivial
  stored := trivial
  known _ h := .inl h
  spent k h := by
    obtain ⟨l₂, t, o, x, l₁, hl, -, -⟩ := h
    simp at hl

/-- The start and the end of a request change nothing. -/
theorem Inv.event (hI : T.Inv w₀ w l) (he : ∀ t o x, e ≠ .op t o x) : T.Inv w₀ w (e :: l) where
  mono := hI.mono
  drawn t k h := by
    obtain ⟨o, x, hmem, hd⟩ := h
    have hold : .op t o x ∈ l := (List.mem_cons.mp hmem).resolve_left fun h => he _ _ _ h.symm
    exact hI.drawn t k ⟨o, x, hold, hd⟩
  once := ⟨fun _ _ _ _ h => absurd h (he _ _ _), hI.once⟩
  stored := ⟨fun _ _ _ _ h => absurd h (he _ _ _), hI.stored⟩
  known k h := (hI.known k h).append [e]
  spent k h := by
    obtain ⟨l₂, t, o, x, l₁, hl, ht, hk⟩ := h
    rcases l₂ with - | ⟨a, l₂⟩
    · obtain ⟨rfl, -⟩ := List.cons.inj hl
      exact absurd rfl (he t o x)
    · obtain ⟨-, rfl⟩ := List.cons.inj hl
      exact hI.spent k ⟨l₂, t, o, x, l₁, rfl, ht, hk⟩

end Tickets

/-! ### All interleavings -/

section Runs

variable {prog : Q → Prog O R ε α} {sem : (o : O) → W → R o → W → Prop}
  {C : W → Log Q O R (Except ε α) → Event Q O R (Except ε α) → Prop} {T : Tickets O R W K}
  {A : Q → (o : O) → R o → Prop} {F : Q → Except ε α → List (Seen O R) → Prop}
  {w₀ : W} {P : Pool Q O R W ε α}

/-- **The tickets of every interleaving.** -/
theorem Run.tickets (hT : T.Lawful sem) (h₀ : ∀ k, T.Holds w₀ k → T.Issued w₀ k)
    (hprog : ∀ q, seenWp (A q) T.Once (prog q) (F q) [])
    (hA : ∀ w l t q o x w', .start t q ∈ l → sem o w x w' → C w l (.op t o x) → A q o x)
    (h : Run prog sem C (init w₀) P) : T.Inv w₀ P.world P.log := by
  refine (Run.inv_of_seen (A := A) (G := fun _ => T.Once) (F := F) (I := T.Inv w₀) hprog
    (fun w l t q o x w' _ => hA w l t q o x w') .init ?_ ?_ ?_ h).1
  · exact fun w l t q hI _ _ => hI.event (by simp)
  · exact fun w l t q o x w' hI _ _ hx _ hG => hI.op hT h₀ hx hG
  · exact fun w l t q r hI _ _ _ _ => hI.event (by simp)

/-- **A ticket is taken once**, if it is found by one request at a time: two requests that
present it, have found it and then taken it are the same. -/
theorem Run.taken_once {D : Q → K → Prop} (hT : T.Lawful sem)
    (h₀ : ∀ k, T.Holds w₀ k → T.Issued w₀ k) (hprog : ∀ q, seenWp (A q) T.Once (prog q) (F q) [])
    (hA : ∀ w l t q o x w', .start t q ∈ l → sem o w x w' → C w l (.op t o x) → A q o x)
    (hC : ∀ w l e, C w l e → T.Alone D w l e) (h : Run prog sem C (init w₀) P) {t t' : ℕ}
    {q q' : Q} {k : K} (hq : .start t q ∈ P.log) (hq' : .start t' q' ∈ P.log) (hD : D q k)
    (hD' : D q' k) (ht : T.Took t k P.log) (ht' : T.Took t' k P.log) : t = t' := by
  have hpast := Run.past (fun P hP => Run.tickets hT h₀ hprog hA hP) h
  have hearlier : ∀ {t : ℕ} {q : Q} {m n : Log Q O R (Except ε α)}, P.log = m ++ n →
      .start t q ∈ P.log → T.Found t k n → T.Known w₀ k n ∧ .start t q ∈ n := by
    rintro t q m n hlog hq ⟨o, x, hmem, hf⟩
    obtain ⟨b, a, rfl⟩ := List.append_of_mem hmem
    have hsuffix : .op t o x :: a <:+ P.log := ⟨m ++ b, by simp [hlog]⟩
    obtain ⟨w, w', hI, -, -, hop⟩ := hpast.of_suffix hsuffix
    obtain ⟨hsem, ⟨q₀, hq₀⟩, -⟩ := hop t o x rfl
    obtain rfl : q₀ = q := h.start_unique (by rw [hlog]; simp [hq₀]) hq
    exact ⟨((hI.known k (hT.found hsem k hf)).append [_]).append b, by simp [hq₀]⟩
  -- a request that has taken the ticket has not let another one find it in between
  have hlate : ∀ {t t' : ℕ} {q q' : Q} {l₂ l₁ m₂ m₁ : Log Q O R (Except ε α)} {o o' : O} {x : R o}
      {x' : R o'}, .start t q ∈ P.log → D q k → .start t' q' ∈ P.log → D q' k →
      P.log = l₂ ++ .op t o x :: l₁ → T.Takes o x k → T.Found t k l₁ →
      P.log = m₂ ++ .op t' o' x' :: m₁ → T.Finds o' x' k → T.Found t k m₁ → t = t' := by
    intro t t' q q' l₂ l₁ m₂ m₁ o o' x x' hq hD hq' hD' hl htakes hfound hm hfinds hbefore
    by_contra hne
    obtain ⟨w, w', hI, hc, -, hsem⟩ := hpast.of_suffix ⟨m₂, hm.symm⟩
    obtain ⟨hsem, ⟨q₀, hq₀⟩, -⟩ := hsem t' o' x' rfl
    obtain rfl : q₀ = q' := h.start_unique (by rw [hm]; simp [hq₀]) hq'
    have hm' : P.log = (m₂ ++ [.op t' o' x']) ++ m₁ := by simp [hm]
    have hstart := (hearlier hm' hq hbefore).2
    have hidle := hC _ _ _ hc t' q₀ o' x' k rfl hfinds hq₀ hD' t q hne hstart hD hbefore
    rcases Log.split_cases (hl.symm.trans hm) with ⟨he, -⟩ | ⟨-, r, hr⟩ | ⟨r, hr⟩
    · cases he
      exact hne rfl
    · -- the taking comes later, so the request was still in flight
      obtain ⟨_, _, -, -, -, hop⟩ := hpast.of_suffix ⟨l₂, hl.symm⟩
      obtain ⟨-, hno⟩ := (hop t o x rfl).2
      refine hidle ⟨⟨q, hstart⟩, fun a ha => hno a ?_⟩
      rw [hr]
      exact List.mem_append_right r (List.mem_cons_of_mem _ ha)
    · -- the taking came before, so the ticket was gone
      have hl' : P.log = (l₂ ++ [.op t o x]) ++ l₁ := by simp [hl]
      have hspent : T.Spent w₀ k m₁ := ⟨r, t, o, x, l₁, hr, htakes, (hearlier hl' hq hfound).1⟩
      exact hI.spent k hspent (hT.found hsem k hfinds)
  obtain ⟨l₂, o, x, l₁, hl, htakes, o₁, x₁, hmem, hf⟩ := ht
  obtain ⟨l₂', o', x', l₁', hl', htakes', o₁', x₁', hmem', hf'⟩ := ht'
  obtain ⟨a, b, rfl⟩ := List.append_of_mem hmem
  obtain ⟨a', b', rfl⟩ := List.append_of_mem hmem'
  have hb : P.log = (l₂ ++ .op t o x :: a) ++ .op t o₁ x₁ :: b := by rw [hl]; simp
  have hb' : P.log = (l₂' ++ .op t' o' x' :: a') ++ .op t' o₁' x₁' :: b' := by rw [hl']; simp
  rcases Log.split_cases (hb.symm.trans hb') with ⟨he, -⟩ | ⟨-, r, hr⟩ | ⟨r, hr⟩
  · cases he
    rfl
  · refine (hlate hq' hD' hq hD hl' htakes' ⟨o₁', x₁', by simp, hf'⟩ hb hf
      ⟨o₁', x₁', ?_, hf'⟩).symm
    rw [hr]
    simp
  · refine hlate hq hD hq' hD' hl htakes ⟨o₁, x₁, by simp, hf⟩ hb' hf' ⟨o₁, x₁, ?_, hf⟩
    rw [hr]
    simp

end Runs

end Pool
