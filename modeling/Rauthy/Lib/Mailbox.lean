/-
Rauthy/Lib/Mailbox.lean

A task that works through a queue of messages, one after the other.  Everybody can put messages at
the end of the queue, as long as it has room; the task takes the message at its front, serves it
with the state that it owns, and can put further messages into its own queue.  Senders, the task and
whatever else changes the state take their steps in any order.

Main results:
  * `Run.fifo`: no message is lost, none is served twice, and they are served in order;
  * `Run.inv`: an invariant of the state and the answers, from one service;
  * `Run.drains`: a task that can serve every message can answer all that were sent.
-/
import Mathlib.Algebra.Ring.Nat
import Mathlib.Data.Fintype.EquivFin
import Mathlib.Data.List.Nodup
import Mathlib.Logic.Relation

/-- A task: the messages have names from `ι`, and are served with outcomes from `R`. -/
structure Mailbox.Service (ι M R S : Type) where
  /-- the room in the queue, if it is bounded -/
  room : Option ℕ
  /-- whether messages can be sent in this state -/
  admits : S → Prop
  /-- what else changes the state -/
  env : S → S → Prop
  /-- one message, with its outcome, the next state, and the messages that the task sends itself -/
  serve : S → ι → M → R → S → List M → Prop

/-- The queue, the message that the task is about to serve, and what has happened so far. -/
structure Mailbox (ι M R S : Type) where
  state : S
  /-- all messages that were sent, the first one first -/
  sent : List (ι × M)
  queue : List (ι × M)
  current : Option (ι × M)
  /-- the messages that were served, the first one first -/
  answered : List ((ι × M) × R)

namespace Mailbox

variable {ι M R S : Type}

/-- Nothing has been sent. -/
def init (s : S) : Mailbox ι M R S := ⟨s, [], [], none, []⟩

/-- A queue without room hands messages over to an idle task. -/
def HasRoom (room : Option ℕ) (P : Mailbox ι M R S) : Prop :=
  ∀ n, room = some n → P.queue.length < n ∨ P.current = none ∧ P.queue = []

/-- The messages get names that were not used before. -/
def Fresh (out : List (ι × M)) (P : Mailbox ι M R S) : Prop :=
  ((P.sent ++ out).map Prod.fst).Nodup

inductive Step (T : Service ι M R S) : Mailbox ι M R S → Mailbox ι M R S → Prop
  | env {P : Mailbox ι M R S} {s : S} (h : T.env P.state s) : Step T P { P with state := s }
  | send {P : Mailbox ι M R S} {i : ι} {m : M} (hnew : Fresh [(i, m)] P)
      (hroom : HasRoom T.room P) (hadmits : T.admits P.state) :
      Step T P { P with sent := P.sent ++ [(i, m)], queue := P.queue ++ [(i, m)] }
  | take {P : Mailbox ι M R S} {p : ι × M} {rest : List (ι × M)} (hidle : P.current = none)
      (hq : P.queue = p :: rest) : Step T P { P with queue := rest, current := some p }
  | finish {P : Mailbox ι M R S} {p : ι × M} {r : R} {s : S} {out : List (ι × M)}
      (hcur : P.current = some p) (hserve : T.serve P.state p.1 p.2 r s (out.map Prod.snd))
      (hnew : Fresh out P) :
      Step T P { P with
        state := s, sent := P.sent ++ out, queue := P.queue ++ out, current := none,
        answered := P.answered ++ [(p, r)] }

/-- The states that are reached from `P₀`. -/
abbrev Run (T : Service ι M R S) : Mailbox ι M R S → Mailbox ι M R S → Prop :=
  Relation.ReflTransGen (Step T)

variable {T : Service ι M R S} {P P' P₀ : Mailbox ι M R S} {s₀ : S}

/-! ### What was sent -/

/-- The messages that were served, the one that is being served, and the ones that wait. -/
def pending (P : Mailbox ι M R S) : List (ι × M) :=
  P.answered.map Prod.fst ++ (P.current.toList ++ P.queue)

/-- What holds in every state: the messages are accounted for, under different names. -/
structure Accounted (P : Mailbox ι M R S) : Prop where
  sent : P.sent = P.pending
  names : (P.sent.map Prod.fst).Nodup

theorem accounted_init : Accounted (init s₀ : Mailbox ι M R S) := ⟨rfl, List.nodup_nil⟩

theorem Step.accounted (h : Step T P P') (hP : Accounted P) : Accounted P' := by
  obtain ⟨hsent, hnames⟩ := hP
  unfold pending at hsent
  cases h with
  | env h => exact ⟨hsent, hnames⟩
  | send hnew hroom hadmits =>
      refine ⟨?_, hnew⟩
      show P.sent ++ _ = P.answered.map Prod.fst ++ (P.current.toList ++ (P.queue ++ _))
      rw [hsent, List.append_assoc, List.append_assoc]
  | take hidle hq =>
      refine ⟨?_, hnames⟩
      rw [hidle, hq] at hsent
      exact hsent
  | @finish p r s out hcur hserve hnew =>
      refine ⟨?_, hnew⟩
      show P.sent ++ out = (P.answered ++ [(p, r)]).map Prod.fst ++ ([] ++ (P.queue ++ out))
      rw [hsent, hcur, List.map_append]
      simp only [List.append_assoc, Option.toList_some, List.map_cons, List.map_nil,
        List.nil_append]

theorem Run.keeps_accounted (h : Run T P₀ P) (hP : Accounted P₀) : Accounted P := by
  induction h with
  | refl => exact hP
  | tail _ hs ih => exact hs.accounted ih

theorem Run.accounted (h : Run T (init s₀) P) : Accounted P := h.keeps_accounted accounted_init

/-- **No message is lost, and they are served in order.**  The messages that were sent are those
that were served, in this order, then the one that is being served, then those that wait. -/
theorem Run.fifo (h : Run T (init s₀) P) :
    P.sent = P.answered.map Prod.fst ++ (P.current.toList ++ P.queue) := h.accounted.sent

/-- **No message is served twice.** -/
theorem Run.served_once (h : Run T (init s₀) P) : (P.answered.map fun a => a.1.1).Nodup := by
  have hsub : (P.answered.map Prod.fst).Sublist P.sent := by
    rw [h.fifo]
    exact List.sublist_append_left _ _
  have hnames : ((P.answered.map Prod.fst).map Prod.fst).Nodup :=
    h.accounted.names.sublist (hsub.map Prod.fst)
  rwa [List.map_map] at hnames

/-- The message that is being served has not been answered. -/
theorem Accounted.current_new (hP : Accounted P) {p : ι × M} (hcur : P.current = some p) :
    ∀ a ∈ P.answered, a.1.1 ≠ p.1 := by
  have hnames := hP.names
  rw [hP.sent, pending, List.map_append, hcur] at hnames
  intro a ha he
  have hleft : a.1.1 ∈ (P.answered.map Prod.fst).map Prod.fst :=
    List.mem_map_of_mem (List.mem_map_of_mem ha)
  refine (List.nodup_append.mp hnames).2.2 _ hleft _ ?_ he
  exact List.mem_map_of_mem (List.mem_append_left _ (List.mem_singleton_self p))

/-! ### Invariants -/

/-- **An invariant of the state and the answers**, kept by the environment and by one service of a
message that has not been answered before. -/
theorem Run.inv {I : S → List ((ι × M) × R) → Prop} (hinit : I s₀ [])
    (henv : ∀ s l s', I s l → T.env s s' → I s' l)
    (hserve : ∀ s l i m r s' out, I s l → (∀ a ∈ l, a.1.1 ≠ i) → T.serve s i m r s' out →
      I s' (l ++ [((i, m), r)]))
    (h : Run T (init s₀) P) : I P.state P.answered := by
  induction h with
  | refl => exact hinit
  | @tail P P' hrun hs ih =>
      have hP : Accounted P := Run.accounted hrun
      cases hs with
      | env h => exact henv _ _ _ ih h
      | send hnew hroom hadmits => exact ih
      | take hidle hq => exact ih
      | finish hcur hs hnew => exact hserve _ _ _ _ _ _ _ ih (hP.current_new hcur) hs

/-- What was sent and answered stays so. -/
theorem Run.grows (h : Run T P₀ P) :
    P₀.sent <+: P.sent ∧ P₀.answered <+: P.answered := by
  induction h with
  | refl => exact ⟨List.prefix_rfl, List.prefix_rfl⟩
  | tail hrun hs ih =>
      cases hs with
      | env h => exact ih
      | send hnew hroom hadmits => exact ⟨ih.1.trans (List.prefix_append _ _), ih.2⟩
      | take hidle hq => exact ih
      | finish hcur hs hnew =>
          exact ⟨ih.1.trans (List.prefix_append _ _), ih.2.trans (List.prefix_append _ _)⟩

/-- The queue keeps its bound, if the task sends itself nothing. -/
theorem Run.bounded {n : ℕ} (hroom : T.room = some n) (hn : 0 < n)
    (hout : ∀ s i m r s' out, T.serve s i m r s' out → out = [])
    (h : Run T (init s₀) P) : P.queue.length ≤ n := by
  induction h with
  | refl => exact Nat.zero_le n
  | @tail P P' hrun hs ih =>
      cases hs with
      | env h => exact ih
      | @send i m hnew hr hadmits =>
          show (P.queue ++ [(i, m)]).length ≤ n
          rw [List.length_append, List.length_singleton]
          rcases hr n hroom with hlt | ⟨-, hnil⟩
          · exact hlt
          · rw [hnil]
            exact hn
      | @take p rest hidle hq =>
          rw [hq, List.length_cons] at ih
          show rest.length ≤ n
          omega
      | @finish p r s out hcur hs hnew =>
          show (P.queue ++ out).length ≤ n
          rw [List.map_eq_nil_iff.mp (hout _ _ _ _ _ _ hs), List.append_nil]
          exact ih

/-! ### Progress -/

/-- Names that are not among finitely many others. -/
theorem exists_names [Infinite ι] (ms : List M) (used : List ι) (hused : used.Nodup)
    (F : List ι) : ∃ out : List (ι × M), out.map Prod.snd = ms ∧
      (used ++ out.map Prod.fst).Nodup ∧ ∀ p ∈ out, p.1 ∉ F := by
  classical
  induction ms generalizing used with
  | nil => exact ⟨[], rfl, (List.append_nil used).symm ▸ hused, fun p hp => by cases hp⟩
  | cons m ms ih =>
      obtain ⟨i, hi⟩ := Infinite.exists_notMem_finset (used ++ F).toFinset
      rw [List.mem_toFinset, List.mem_append, not_or] at hi
      have hnodup : (used ++ [i]).Nodup := by
        refine List.nodup_append.mpr ⟨hused, List.nodup_singleton i, fun a ha b hb he => ?_⟩
        rw [List.mem_singleton] at hb
        exact hi.1 (hb ▸ he ▸ ha)
      obtain ⟨out, hms, hout, hF⟩ := ih (used ++ [i]) hnodup
      refine ⟨(i, m) :: out, by rw [List.map_cons, hms], ?_, fun p hp => ?_⟩
      · rwa [List.append_assoc] at hout
      · rcases List.mem_cons.mp hp with rfl | hp
        · exact hi.2
        · exact hF p hp

/-- The size of the messages that have not been served. -/
def load (size : M → ℕ) (P : Mailbox ι M R S) : ℕ :=
  ((P.current.toList ++ P.queue).map fun p => size p.2).sum

/-- **A task that can serve what waits can go on until nothing waits**, if what it sends itself is
smaller than what it has served.  `A` is what it needs of its state, and the names in `F` are those
of senders that it has trouble with. -/
theorem Run.drains [Infinite ι] (A : S → Prop) (F : List ι) (size : M → ℕ)
    (hserve : ∀ s i m, A s → i ∉ F → ∃ r s' out, T.serve s i m r s' out ∧ A s' ∧
      (out.map size).sum < size m)
    (hA : A P.state) (hP : Accounted P) (hF : ∀ p ∈ P.current.toList ++ P.queue, p.1 ∉ F) :
    ∃ P', Run T P P' ∧ P'.current = none ∧ P'.queue = [] ∧ A P'.state := by
  -- the message that is being served makes room for smaller ones
  have hround : ∀ P : Mailbox ι M R S, ∀ p, P.current = some p → A P.state → Accounted P →
      (∀ p ∈ P.current.toList ++ P.queue, p.1 ∉ F) → ∃ P', Step T P P' ∧
        load size P' < load size P ∧ A P'.state ∧
        ∀ p ∈ P'.current.toList ++ P'.queue, p.1 ∉ F := by
    intro P p hcur hA hP hF
    have hp : p.1 ∉ F := by
      apply hF
      rw [hcur]
      exact List.mem_append_left _ (List.mem_singleton_self p)
    obtain ⟨r, s', ms, hs, hA', hlt⟩ := hserve P.state p.1 p.2 hA hp
    obtain ⟨out, rfl, hnew, hout⟩ := exists_names ms (P.sent.map Prod.fst) hP.names F
    rw [← List.map_append] at hnew
    refine ⟨_, .finish hcur hs hnew, ?_, hA', fun q hq => ?_⟩
    · simp only [load, hcur, Option.toList_none, Option.toList_some, List.nil_append,
        List.singleton_append, List.map_append, List.map_cons, List.sum_append, List.sum_cons]
      rw [List.map_map] at hlt
      have hlt' : (out.map fun p => size p.2).sum < size p.2 := hlt
      omega
    · have hq' : q ∈ P.queue ++ out := hq
      rcases List.mem_append.mp hq' with hq | hq
      · exact hF q (List.mem_append_right _ hq)
      · exact hout q hq
  generalize hn : load size P = n
  induction n using Nat.strong_induction_on generalizing P with
  | h n ih =>
      subst hn
      rcases hcur : P.current with - | p
      · rcases hq : P.queue with - | ⟨p, rest⟩
        · exact ⟨P, .refl, hcur, hq, hA⟩
        · have htake : Step T P { P with queue := rest, current := some p } := .take hcur hq
          have hsame : load size { P with queue := rest, current := some p } = load size P := by
            simp only [load, hcur, hq, Option.toList_none, Option.toList_some, List.nil_append,
              List.singleton_append]
          have hF' : ∀ q ∈ [p] ++ rest, q.1 ∉ F := by
            rw [hcur, hq] at hF
            exact hF
          obtain ⟨P₁, hstep, hlt, hA₁, hF₁⟩ :=
            hround { P with queue := rest, current := some p } p rfl hA (htake.accounted hP) hF'
          rw [hsame] at hlt
          obtain ⟨P', hrun, hdone⟩ :=
            ih _ hlt hA₁ (hstep.accounted (htake.accounted hP)) hF₁ rfl
          exact ⟨P', .head htake (.head hstep hrun), hdone⟩
      · obtain ⟨P₁, hstep, hlt, hA₁, hF₁⟩ := hround P p hcur hA hP hF
        obtain ⟨P', hrun, hdone⟩ := ih _ hlt hA₁ (hstep.accounted hP) hF₁ rfl
        exact ⟨P', .head hstep hrun, hdone⟩

/-- Nothing waits: everything that was sent was served. -/
theorem Run.all_answered (h : Run T (init s₀) P) (hcur : P.current = none) (hq : P.queue = []) :
    P.sent = P.answered.map Prod.fst := by
  rw [h.fifo, hcur, hq]
  exact List.append_nil _

/-- An exchange with an idle task: a message is sent, and served at once. -/
theorem exists_exchange {i : ι} {m : M} {r : R} {s : S} (hidle : P.current = none)
    (hq : P.queue = []) (hnew : Fresh [(i, m)] P) (hadmits : T.admits P.state)
    (hs : T.serve P.state i m r s []) :
    ∃ P', Run T P P' ∧ P'.current = none ∧ P'.queue = [] ∧ P'.sent = P.sent ++ [(i, m)] ∧
      P'.state = s ∧ P'.answered = P.answered ++ [((i, m), r)] := by
  have hsend : Step T P { P with sent := P.sent ++ [(i, m)], queue := P.queue ++ [(i, m)] } :=
    .send hnew (fun _ _ => .inr ⟨hidle, hq⟩) hadmits
  have htake : Step T { P with sent := P.sent ++ [(i, m)], queue := P.queue ++ [(i, m)] }
      { P with sent := P.sent ++ [(i, m)], queue := [], current := some (i, m) } :=
    .take hidle (by rw [hq]; rfl)
  have hfinish := Step.finish (T := T)
    (P := { P with sent := P.sent ++ [(i, m)], queue := [], current := some (i, m) }) rfl hs
    (by rw [Fresh, List.append_nil]; exact hnew)
  exact ⟨_, .tail (.tail (.single hsend) htake) hfinish, rfl, rfl, List.append_nil _, rfl, rfl⟩

end Mailbox
