/-
Rauthy/Lib/Guards.lean

Reference monitors.  A guarded request begins with a part that does only free operations and
comes to its end only with evidence that the rest is allowed.  The evidence is in what the
request has seen by its own operations, so that no other request can take it away.

Main results:
  * `sees_guarded`: whatever comes after the guard, each operation is free or has the evidence;
  * `Run.guarded`: in every interleaving each operation of the log is free or has the evidence,
    and so does each good end;
  * `Run.view_kept`: a view of the world changes only by the operations that alter it.
-/
import Rauthy.Lib.Tickets

namespace Pool

variable {Q O : Type} {R : O → Type} {W ε α β γ : Type}

/-- What a request can have seen that allows it to go on.  Seeing more takes nothing away. -/
structure Evidence (O : Type) (R : O → Type) where
  holds : List (Seen O R) → Prop
  grows : ∀ {v tr}, holds tr → holds (v :: tr)

namespace Evidence

/-- Nothing has to be seen. -/
def free : Evidence O R := ⟨fun _ => True, fun h => h⟩

end Evidence

/-- The operation is free, or there is evidence for it. -/
def Guarded (free : O → Prop) (E : Evidence O R) (tr : List (Seen O R)) (v : Seen O R) : Prop :=
  free v.1 ∨ E.holds tr

section Programs

variable {A : (o : O) → R o → Prop} {free : O → Prop} {E : Evidence O R} {tr : List (Seen O R)}

/-- With the evidence at hand every program is guarded, and it still has it at its end. -/
theorem Evidence.sees (h : E.holds tr) (p : Prog O R ε β) :
    Sees A (Guarded free E) p (fun _ tr' => E.holds tr') tr := by
  induction p generalizing tr with
  | ret b => exact sees_ret h
  | fail e => exact sees_fail
  | call o k ih => exact sees_call (fun _ _ => .inr h) fun x _ => ih x (E.grows h)

/-- **Guards**: what comes after the evidence is guarded. -/
theorem sees_guarded {p : Prog O R ε β}
    (hp : Sees A (Guarded free E) p (fun _ tr' => E.holds tr') tr) (f : β → Prog O R ε γ) :
    Sees A (Guarded free E) (p >>= f) (fun _ tr' => E.holds tr') tr :=
  sees_bind hp fun b _ _ h => Evidence.sees h (f b)

end Programs

section Runs

variable {prog : Q → Prog O R ε α} {sem : (o : O) → W → R o → W → Prop}
  {C : W → Log Q O R (Except ε α) → Event Q O R (Except ε α) → Prop} {w₀ : W}
  {P : Pool Q O R W ε α}

/-- **Complete mediation**: if each program is guarded, then in every interleaving so is each
operation, at the moment it is done, and a request that ends well has its evidence. -/
theorem Run.guarded {A : Q → (o : O) → R o → Prop} {free : Q → O → Prop} {E : Q → Evidence O R}
    {ok : Q → O → Prop}
    (hprog : ∀ q, Sees (A q) (Guarded (free q) (E q)) (prog q) (fun _ tr => (E q).holds tr) [])
    (hok : ∀ q, Sees (A q) (fun _ v => ok q v.1) (prog q) (fun _ _ => True) [])
    (hA : ∀ w l t q o x w', .start t q ∈ l → sem o w x w' → C w l (.op t o x) → A q o x)
    (h : Run prog sem C (init w₀) P) :
    Log.Always (fun e l =>
      (∀ t o x, e = .op t o x → ∃ q, .start t q ∈ l ∧ ok q o ∧
        (free q o ∨ (E q).holds (seenBy t l))) ∧
      ∀ t a, e = .done t (.ok a) → ∃ q, .start t q ∈ l ∧ (E q).holds (seenBy t l)) P.log := by
  have hboth : ∀ q, seenWp (A q) (fun tr v => Guarded (free q) (E q) tr v ∧ ok q v.1) (prog q)
      (fun r tr => (∀ a, r = .ok a → (E q).holds tr) ∧ ∀ b, r = .ok b → True) [] :=
    fun q => seenWp_and (hprog q) (hok q)
  apply (Run.promises hboth hA h).mono
  rintro e l ⟨hop, hdone⟩
  constructor
  · intro t o x he
    obtain ⟨q, hq, hfree, ho⟩ := hop t o x he
    exact ⟨q, hq, ho, hfree⟩
  · intro t a he
    obtain ⟨q, hq, hE, -⟩ := hdone t _ he
    exact ⟨q, hq, hE a rfl⟩

/-- A view of the world is changed by operations that alter it. -/
theorem Run.view_kept {X : Type} {view : W → X} {alters : O → Prop}
    (hview : ∀ o w x w', sem o w x w' → ¬ alters o → view w' = view w)
    (h : Run prog sem C (init w₀) P) :
    view P.world = view w₀ ∨ ∃ t o x, .op t o x ∈ P.log ∧ alters o := by
  induction h with
  | refl => exact .inl rfl
  | @step P P' e hrun hs hC ih =>
      rcases ih with hsame | ⟨t, o, x, hmem, halters⟩
      · cases hs with
        | start q ht => exact .inl hsame
        | @op t o k x w ht hx =>
            by_cases ho : alters o
            · exact .inr ⟨t, o, x, List.mem_cons_self, ho⟩
            · exact .inl ((hview o _ x w hx ho).trans hsame)
        | ret ht => exact .inl hsame
        | fail ht => exact .inl hsame
      · refine .inr ⟨t, o, x, ?_, halters⟩
        cases hs <;> exact List.mem_cons_of_mem _ hmem

end Runs

end Pool
