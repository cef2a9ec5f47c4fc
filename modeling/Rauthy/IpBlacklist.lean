/-
Rauthy/IpBlacklist.lean

The handler of blacklisted IPs and failed logins (`events/ip_blacklist_handler.rs`): one
loop that owns both maps and works through its messages, and the task that reminds it of
expired entries (`spawn_exp_checker`).  `abort` on a task takes effect some time later, so a
task that was aborted may not be finished yet.

Failed logins are counted twice: by the handler itself, and by the events about them, which
come back to the handlers of all nodes (`EventListener::router`).  A counter is an `u32`.

Main results: `guarded_iff` on the expiry checker, and `failed_logins_counted` with
`late_echo_restores` on the counters of a cluster.
-/
import Mathlib.Algebra.Group.Nat.Defs
import Mathlib.Data.List.AList
import Mathlib.Data.List.Induction
import Mathlib.Logic.Function.Basic

namespace Rauthy

/-! ### The handler -/

inductive IpBlacklistReq where
  | checkExp
  | blacklist (ip : String) (exp : Int)
  | blacklistCheck (ip : String)
  | blacklistDelete (ip : String)
  | loginCheck (ip : String) (increaseCounter : Bool)
  | loginFailedSet (ip : String) (invalidLogins : ℕ)
  | loginFailedDelete (ip : String)
  | getBlacklistedIps
  deriving DecidableEq

/-- What the handler sends back over the channel of a request. -/
inductive IpBlacklistReply where
  | none
  | exp (exp : Option Int)
  | counter (counter : Option ℕ)
  | ips (ips : List (Σ _ : String, Int))
  deriving DecidableEq

/-- A task of `spawn_exp_checker`: its loop has no end of its own. -/
inductive ExpChecker where
  | running
  | aborted
  | finished
  deriving DecidableEq

namespace ExpChecker

/-- `JoinHandle::is_finished` -/
def isFinished : ExpChecker → Bool
  | finished => true
  | _ => false

/-- `JoinHandle::abort` -/
def abort : ExpChecker → ExpChecker
  | running => aborted
  | c => c

/-- The runtime ends a task that was aborted. -/
def settle : ExpChecker → ExpChecker
  | aborted => finished
  | c => c

end ExpChecker

structure IpHandler where
  dataBlacklist : AList fun _ : String => Int
  dataFailedLogins : AList fun _ : String => ℕ
  expCheckerHandle : ExpChecker
  /-- the tasks whose handles were replaced -/
  dropped : List ExpChecker

namespace IpHandler

/-- The state in which the loop starts. -/
def init : IpHandler := ⟨∅, ∅, .running, []⟩

/-- The entries that `CheckExp` removes. -/
def expiredIps (h : IpHandler) (now : Int) : List String :=
  (h.dataBlacklist.entries.filter fun e => now > e.2).map Sigma.fst

/-- One message; `now` is the time at which it is handled. -/
def recv (h : IpHandler) (now : Int) : IpBlacklistReq → IpHandler × IpBlacklistReply
  | .checkExp =>
      let data := (h.expiredIps now).foldl (fun d k => d.erase k) h.dataBlacklist
      let h := { h with dataBlacklist := data }
      if data.entries.isEmpty && !h.expCheckerHandle.isFinished then
        ({ h with expCheckerHandle := h.expCheckerHandle.abort }, .none)
      else (h, .none)
  | .blacklist ip exp =>
      let h := { h with dataBlacklist := h.dataBlacklist.insert ip exp }
      if h.expCheckerHandle.isFinished then
        ({ h with expCheckerHandle := .running, dropped := h.expCheckerHandle :: h.dropped }, .none)
      else (h, .none)
  | .blacklistCheck ip => (h, .exp (h.dataBlacklist.lookup ip))
  | .loginCheck ip increaseCounter =>
      match h.dataFailedLogins.lookup ip with
      | some c =>
          if increaseCounter then
            let c := (c + 1) % 2 ^ 32
            ({ h with dataFailedLogins := h.dataFailedLogins.insert ip c }, .counter (some c))
          else (h, .counter (some c))
      | none =>
          if increaseCounter then
            ({ h with dataFailedLogins := h.dataFailedLogins.insert ip 1 }, .counter (some 1))
          else (h, .counter none)
  | .loginFailedSet ip invalidLogins =>
      match h.dataFailedLogins.lookup ip with
      | some c =>
          if invalidLogins > c then
            ({ h with dataFailedLogins := h.dataFailedLogins.insert ip invalidLogins }, .none)
          else (h, .none)
      | none => ({ h with dataFailedLogins := h.dataFailedLogins.insert ip invalidLogins }, .none)
  | .blacklistDelete ip => ({ h with dataBlacklist := h.dataBlacklist.erase ip }, .none)
  | .loginFailedDelete ip => ({ h with dataFailedLogins := h.dataFailedLogins.erase ip }, .none)
  | .getBlacklistedIps => (h, .ips h.dataBlacklist.entries)

end IpHandler

/-! ### The expiry checker -/

/-- What can happen to the handler: a message, or the end of a task that was aborted. -/
inductive HandlerEvent where
  | recv (now : Int) (req : IpBlacklistReq)
  | settle
  deriving DecidableEq

namespace IpHandler

def next (h : IpHandler) : HandlerEvent → IpHandler
  | .recv now req => (h.recv now req).1
  | .settle => { h with expCheckerHandle := h.expCheckerHandle.settle
                        dropped := h.dropped.map ExpChecker.settle }

/-- The state of the loop after these events. -/
def run (es : List HandlerEvent) : IpHandler := es.foldl next init

/-- If an IP is blocked, some checker runs that was not aborted. -/
def Guarded (h : IpHandler) : Prop :=
  h.dataBlacklist.entries ≠ [] → ∃ c ∈ h.expCheckerHandle :: h.dropped, c = .running

instance (h : IpHandler) : Decidable h.Guarded := inferInstanceAs (Decidable (_ → _))

/-- No IP is blocked while a checker was aborted and is not finished. -/
def Prompt (h : IpHandler) (e : HandlerEvent) : Prop :=
  ∀ now ip exp, e = .recv now (.blacklist ip exp) → h.expCheckerHandle ≠ .aborted

theorem run_append (es : List HandlerEvent) (e : HandlerEvent) :
    run (es ++ [e]) = (run es).next e := by
  unfold run
  rw [List.foldl_append, List.foldl_cons, List.foldl_nil]

/-- The checkers whose handles were replaced are finished. -/
theorem dropped_finished (es : List HandlerEvent) : ∀ c ∈ (run es).dropped, c = .finished := by
  induction es using List.reverseRecOn with
  | nil => exact fun c hc => by cases hc
  | append_singleton es e ih =>
      rw [run_append]
      cases e with
      | settle =>
          intro c hc
          obtain ⟨c', hc', rfl⟩ := List.mem_map.mp hc
          rw [ih c' hc']
          rfl
      | recv now req =>
          cases req with
          | blacklist ip exp =>
              simp only [next, recv]
              split
              · next hfin =>
                  intro c hc
                  rcases List.mem_cons.mp hc with rfl | hc
                  · cases hh : (run es).expCheckerHandle <;> rw [hh] at hfin <;> trivial
                  · exact ih c hc
              · exact ih
          | checkExp =>
              simp only [next, recv]
              split <;> exact ih
          | loginCheck ip inc =>
              simp only [next, recv]
              split <;> split <;> exact ih
          | loginFailedSet ip n =>
              simp only [next, recv]
              split
              · split <;> exact ih
              · exact ih
          | _ => exact ih

/-- An IP is blocked only while the checker of the handle runs. -/
def Watched (h : IpHandler) : Prop :=
  h.dataBlacklist.entries ≠ [] → h.expCheckerHandle = .running

theorem erase_nonempty {d : AList fun _ : String => Int} {k : String}
    (h : (d.erase k).entries ≠ []) : d.entries ≠ [] := by
  rintro hd
  refine h ?_
  show d.entries.kerase k = []
  rw [hd, List.kerase_nil]

/-- One event, if no IP is blocked while a checker is about to end. -/
theorem Watched.next {h : IpHandler} (hw : h.Watched) {e : HandlerEvent} (hp : h.Prompt e) :
    (h.next e).Watched := by
  cases e with
  | settle =>
      intro hne
      show h.expCheckerHandle.settle = .running
      rw [hw hne]
      rfl
  | recv now req =>
      cases req with
      | checkExp =>
          simp only [IpHandler.next, recv]
          split
          · next hempty =>
              intro hne
              have hnil := List.isEmpty_iff.mp (Bool.and_eq_true_iff.mp hempty).1
              exact absurd hnil hne
          · intro hne
            refine hw fun hnil => hne ?_
            have hnone : h.expiredIps now = [] := by
              unfold expiredIps
              rw [hnil]
              rfl
            rw [hnone]
            exact hnil
      | blacklist ip exp =>
          simp only [IpHandler.next, recv]
          split
          · exact fun _ => rfl
          · next hfin =>
              intro _
              show h.expCheckerHandle = .running
              have hnot := hp now ip exp rfl
              cases hh : h.expCheckerHandle with
              | running => rfl
              | aborted => exact absurd hh hnot
              | finished => rw [hh] at hfin; exact absurd rfl hfin
      | blacklistDelete ip => exact fun hne => hw (erase_nonempty hne)
      | loginCheck ip inc =>
          simp only [IpHandler.next, recv]
          split <;> split <;> exact hw
      | loginFailedSet ip n =>
          simp only [IpHandler.next, recv]
          split
          · split <;> exact hw
          · exact hw
      | _ => exact hw

theorem Watched.guarded {h : IpHandler} (hw : h.Watched) : h.Guarded :=
  fun hne => ⟨h.expCheckerHandle, List.mem_cons_self, hw hne⟩

theorem not_guarded_of_aborted (es : List HandlerEvent) (now : Int) (ip : String) (exp : Int)
    (h : (run es).expCheckerHandle = .aborted) :
    ¬ ((run es).next (.recv now (.blacklist ip exp))).Guarded := by
  intro hg
  simp only [next, recv, h, ExpChecker.isFinished, Bool.false_eq_true, if_false] at hg
  obtain ⟨c, hc, rfl⟩ := hg (by simp)
  rcases List.mem_cons.mp hc with hc | hc
  · cases hc
  · cases dropped_finished es _ hc

/-- **The expiry checker**: along every sequence of events, blocked IPs are guarded exactly
if none is blocked while the checker was aborted and is not finished yet. -/
theorem guarded_iff (es : List HandlerEvent) :
    (∀ es₁ es₂, es = es₁ ++ es₂ → (run es₁).Guarded) ↔
      ∀ es₁ e es₂, es = es₁ ++ e :: es₂ → (run es₁).Prompt e := by
  constructor
  · rintro hall es₁ e es₂ rfl now ip exp rfl habort
    refine not_guarded_of_aborted es₁ now ip exp habort ?_
    rw [← run_append]
    exact hall _ es₂ (by simp)
  · intro hall es₁ es₂ hes
    suffices (run es₁).Watched from this.guarded
    induction es₁ using List.reverseRecOn generalizing es₂ with
    | nil => exact fun hne => absurd rfl hne
    | append_singleton es₁ e ih =>
        rw [List.append_assoc, List.singleton_append] at hes
        rw [run_append]
        exact (ih (e :: es₂) hes).next (hall es₁ e es₂ hes)

/-- The list of blocked IPs is empty and the checker is stopped; before it has stopped, an IP
is blocked, and is never looked at again. -/
theorem blocked_unguarded : ¬ ∀ es, (run es).Guarded := by
  intro h
  exact absurd (h [.recv 0 .checkExp, .recv 1 (.blacklist "1.2.3.4" 60)]) (by decide +kernel)

end IpHandler

/-! ### Failed logins in a cluster -/

/-- The nodes, and for each the events about failed logins of one IP that are on their way
to its handler, as the numbers they carry. -/
structure Cluster (N : Type) where
  handlers : N → IpHandler
  echoes : N → List ℕ

/-- What can happen for one IP: a failed login or a successful one at a node, which its
handler hears of, and the arrival of one of the events. -/
inductive LoginEvent (N : Type) where
  | failed (n : N)
  | succeeded (n : N)
  | echo (n : N) (i : ℕ)
  deriving DecidableEq

/-- The failed logins since the last successful one. -/
def failedLogins {N : Type} : List (LoginEvent N) → ℕ
  | [] => 0
  | .failed _ :: es => failedLogins es + 1
  | .succeeded _ :: _ => 0
  | .echo _ _ :: es => failedLogins es

namespace Cluster

variable {N : Type} [DecidableEq N] {ip : String}
  {s : Cluster N} {n : N}

def init : Cluster N := ⟨fun _ => .init, fun _ => []⟩

/-- The number of failed logins that the handler of a node has for the IP. -/
def counter (ip : String) (s : Cluster N) (n : N) : ℕ :=
  ((s.handlers n).dataFailedLogins.lookup ip).getD 0

/-- A message to the handler of a node. -/
def send (s : Cluster N) (n : N) (req : IpBlacklistReq) : Cluster N :=
  { s with handlers := Function.update s.handlers n ((s.handlers n).recv 0 req).1 }

/-- One event.  A failed login asks for the counter, and the event that carries the answer
goes to all nodes. -/
def next (ip : String) (s : Cluster N) : LoginEvent N → Cluster N
  | .failed n =>
      match ((s.handlers n).recv 0 (.loginCheck ip true)).2 with
      | .counter (some c) =>
          { s.send n (.loginCheck ip true) with echoes := fun m => c :: s.echoes m }
      | _ => s.send n (.loginCheck ip true)
  | .succeeded n => s.send n (.loginFailedDelete ip)
  | .echo n i =>
      match (s.echoes n)[i]? with
      | some c =>
          { s.send n (.loginFailedSet ip c) with
            echoes := Function.update s.echoes n ((s.echoes n).eraseIdx i) }
      | none => s

/-- The state after these events, the newest first. -/
def run (ip : String) : List (LoginEvent N) → Cluster N
  | [] => init
  | e :: es => (run ip es).next ip e

/-- All events have arrived. -/
def Quiet (s : Cluster N) : Prop := ∀ n, s.echoes n = []

/-- A node hears of a failed login only if no event is on its way to it that would raise its
counter, and of a successful one only if no event is on its way at all and no other node
has a counter. -/
structure InStep (ip : String) (s : Cluster N) (e : LoginEvent N) : Prop where
  failed : ∀ n, e = .failed n →
    (∀ c ∈ s.echoes n, c ≤ s.counter ip n) ∧ s.counter ip n + 1 < 2 ^ 32
  succeeded : ∀ n, e = .succeeded n →
    s.Quiet ∧ ∀ m ≠ n, (s.handlers m).dataFailedLogins.lookup ip = none

/-- Every event was in step. -/
def AllInStep (ip : String) : List (LoginEvent N) → Prop
  | [] => True
  | e :: es => InStep ip (run ip es) e ∧ AllInStep ip es

/-! What the handlers do with the counters -/

@[simp] theorem send_self (s : Cluster N) (n : N) (req : IpBlacklistReq) :
    (s.send n req).handlers n = ((s.handlers n).recv 0 req).1 :=
  Function.update_self n _ s.handlers

theorem send_of_ne {m : N} {req : IpBlacklistReq} (h : m ≠ n) :
    (s.send n req).handlers m = s.handlers m :=
  Function.update_of_ne h _ s.handlers

theorem counter_send_of_ne {m : N} {req : IpBlacklistReq} (h : m ≠ n) :
    (s.send n req).counter ip m = s.counter ip m := by
  unfold counter
  rw [send_of_ne h]

/-- A failed login raises the counter by one, and learns the new value. -/
theorem next_failed (h : s.counter ip n + 1 < 2 ^ 32) :
    (s.next ip (.failed n)).counter ip n = s.counter ip n + 1 ∧
      (∀ m ≠ n, (s.next ip (.failed n)).counter ip m = s.counter ip m) ∧
      ∀ m, (s.next ip (.failed n)).echoes m = (s.counter ip n + 1) :: s.echoes m := by
  have hself : ∀ c, ((s.handlers n).recv 0 (.loginCheck ip true)).1.dataFailedLogins =
      (s.handlers n).dataFailedLogins.insert ip c →
      ((s.handlers n).recv 0 (.loginCheck ip true)).2 = .counter (some c) →
      (s.next ip (.failed n)).counter ip n = c ∧
      (∀ m ≠ n, (s.next ip (.failed n)).counter ip m = s.counter ip m) ∧
      ∀ m, (s.next ip (.failed n)).echoes m = c :: s.echoes m := by
    intro c hins hreply
    have hnext : s.next ip (.failed n) =
        { s.send n (.loginCheck ip true) with echoes := fun m => c :: s.echoes m } := by
      simp only [next, hreply]
    rw [hnext]
    refine ⟨?_, fun m hm => counter_send_of_ne hm, fun _ => rfl⟩
    show (((s.send n (.loginCheck ip true)).handlers n).dataFailedLogins.lookup ip).getD 0 = c
    rw [send_self, hins, AList.lookup_insert]
    rfl
  cases hl : (s.handlers n).dataFailedLogins.lookup ip with
  | some c =>
      have hc : s.counter ip n = c := by rw [counter, hl]; rfl
      rw [hc] at h ⊢
      refine hself (c + 1) ?_ ?_
      · simp only [IpHandler.recv, hl, if_true, Nat.mod_eq_of_lt h]
      · simp only [IpHandler.recv, hl, if_true, Nat.mod_eq_of_lt h]
  | none =>
      have hc : s.counter ip n = 0 := by rw [counter, hl]; rfl
      rw [hc]
      refine hself 1 ?_ ?_
      · simp only [IpHandler.recv, hl, if_true]
      · simp only [IpHandler.recv, hl, if_true]

theorem next_succeeded :
    (s.next ip (.succeeded n)).counter ip n = 0 ∧
      (∀ m ≠ n, (s.next ip (.succeeded n)).counter ip m = s.counter ip m) ∧
      (s.next ip (.succeeded n)).echoes = s.echoes := by
  refine ⟨?_, fun m hm => counter_send_of_ne hm, rfl⟩
  show (((s.send n (.loginFailedDelete ip)).handlers n).dataFailedLogins.lookup ip).getD 0 = 0
  rw [send_self]
  show (((s.handlers n).dataFailedLogins.erase ip).lookup ip).getD 0 = 0
  rw [AList.lookup_erase]
  rfl

theorem counter_loginFailedSet {c : ℕ} :
    (s.send n (.loginFailedSet ip c)).counter ip n = max (s.counter ip n) c := by
  unfold counter
  rw [send_self]
  simp only [IpHandler.recv]
  cases hl : (s.handlers n).dataFailedLogins.lookup ip with
  | some c' =>
      simp only [Option.getD_some]
      split
      · rw [AList.lookup_insert, Option.getD_some]
        omega
      · rw [hl, Option.getD_some]
        omega
  | none =>
      simp only [Option.getD_none]
      rw [AList.lookup_insert, Option.getD_some]
      omega

/-! The invariant -/

/-- No counter and no event is ahead of the failed logins; and whoever has not caught up
with them will hear of them. -/
structure Counted (ip : String) (s : Cluster N) (k : ℕ) : Prop where
  counter_le : ∀ n, s.counter ip n ≤ k
  echo_le : ∀ n, ∀ c ∈ s.echoes n, c ≤ k
  caught_up : ∀ n, s.counter ip n = k ∨ k ∈ s.echoes n

theorem Counted.failed {k : ℕ} (h : Counted ip s k) (hs : InStep ip s (.failed n)) :
    Counted ip (s.next ip (.failed n)) (k + 1) := by
  obtain ⟨hahead, hbound⟩ := hs.failed n rfl
  have hk : s.counter ip n = k := by
    rcases h.caught_up n with hk | hk
    · exact hk
    · exact Nat.le_antisymm (h.counter_le n) (hahead k hk)
  obtain ⟨hself, hother, hechoes⟩ := next_failed hbound
  rw [hk] at hself hechoes
  refine ⟨fun m => ?_, fun m c hc => ?_, fun m => ?_⟩
  · by_cases hm : m = n
    · rw [hm, hself]
    · rw [hother m hm]
      exact Nat.le_succ_of_le (h.counter_le m)
  · rw [hechoes m] at hc
    rcases List.mem_cons.mp hc with rfl | hc
    · exact Nat.le_refl _
    · exact Nat.le_succ_of_le (h.echo_le m c hc)
  · right
    rw [hechoes m]
    exact List.mem_cons_self

theorem Counted.succeeded (hs : InStep ip s (.succeeded n)) :
    Counted ip (s.next ip (.succeeded n)) 0 := by
  obtain ⟨hquiet, hnone⟩ := hs.succeeded n rfl
  obtain ⟨hself, hother, hechoes⟩ := @next_succeeded N _ ip s n
  have hzero : ∀ m, (s.next ip (.succeeded n)).counter ip m = 0 := by
    intro m
    by_cases hm : m = n
    · rw [hm, hself]
    · rw [hother m hm, counter, hnone m hm]
      rfl
  refine ⟨fun m => Nat.le_of_eq (hzero m), fun m c hc => ?_, fun m => .inl (hzero m)⟩
  rw [hechoes, hquiet m] at hc
  cases hc

theorem Counted.echo {k : ℕ} (h : Counted ip s k) (n : N) (i : ℕ) :
    Counted ip (s.next ip (.echo n i)) k := by
  rcases hi : (s.echoes n)[i]? with - | c
  · have hnext : s.next ip (.echo n i) = s := by simp only [next, hi]
    rw [hnext]
    exact h
  have hnext : s.next ip (.echo n i) = { s.send n (.loginFailedSet ip c) with
      echoes := Function.update s.echoes n ((s.echoes n).eraseIdx i) } := by
    simp only [next, hi]
  have hmem : c ∈ s.echoes n := List.mem_of_getElem? hi
  have hself : (s.next ip (.echo n i)).counter ip n = max (s.counter ip n) c := by
    rw [hnext]
    exact counter_loginFailedSet
  have hother : ∀ m ≠ n, (s.next ip (.echo n i)).counter ip m = s.counter ip m := by
    intro m hm
    rw [hnext]
    exact counter_send_of_ne hm
  have hle : ∀ m, ∀ d ∈ (s.next ip (.echo n i)).echoes m, d ∈ s.echoes m := by
    intro m d hd
    rw [hnext] at hd
    by_cases hm : m = n
    · subst hm
      simp only [Function.update_self] at hd
      exact List.mem_of_mem_eraseIdx hd
    · simpa only [Function.update_of_ne hm] using hd
  refine ⟨fun m => ?_, fun m d hd => h.echo_le m d (hle m d hd), fun m => ?_⟩
  · by_cases hm : m = n
    · rw [hm, hself]
      exact max_le (h.counter_le n) (h.echo_le n c hmem)
    · rw [hother m hm]
      exact h.counter_le m
  · by_cases hm : m = n
    · subst hm
      rw [hself]
      rcases h.caught_up m with hk | hk
      · left
        rw [hk]
        exact max_eq_left (h.echo_le m c hmem)
      · by_cases hck : c = k
        · left
          rw [hck]
          exact max_eq_right (h.counter_le m)
        · right
          rw [hnext]
          show k ∈ Function.update s.echoes m ((s.echoes m).eraseIdx i) m
          rw [Function.update_self]
          obtain ⟨j, hj⟩ := List.mem_iff_getElem?.mp hk
          have hij : j ≠ i := by
            rintro rfl
            exact hck (Option.some.inj (hi.symm.trans hj))
          exact (List.mem_eraseIdx_iff_getElem?).mpr ⟨j, hij, hj⟩
    · rw [hother m hm]
      rcases h.caught_up m with hk | hk
      · exact .inl hk
      · right
        rw [hnext]
        show k ∈ Function.update s.echoes n ((s.echoes n).eraseIdx i) m
        rw [Function.update_of_ne hm]
        exact hk

theorem counted_of_inStep {es : List (LoginEvent N)} (h : AllInStep ip es) :
    Counted ip (run ip es) (failedLogins es) := by
  induction es with
  | nil =>
      refine ⟨fun n => Nat.le_refl 0, fun n c hc => ?_, fun n => .inl rfl⟩
      cases hc
  | cons e es ih =>
      obtain ⟨he, hes⟩ := h
      cases e with
      | failed n => exact (ih hes).failed he
      | succeeded n => exact Counted.succeeded he
      | echo n i => exact (ih hes).echo n i

/-- **Failed logins are counted**: if all messages were in step, no counter is ever ahead of
the failed logins since the last successful one, and when all events have arrived, the
counter of every node is their number. -/
theorem failed_logins_counted {es : List (LoginEvent N)} (h : AllInStep ip es) :
    (∀ n, (run ip es).counter ip n ≤ failedLogins es) ∧
      ((run ip es).Quiet → ∀ n, (run ip es).counter ip n = failedLogins es) := by
  have hcounted := counted_of_inStep h
  refine ⟨hcounted.counter_le, fun hquiet n => ?_⟩
  rcases hcounted.caught_up n with hk | hk
  · exact hk
  · rw [hquiet n] at hk
    cases hk

/-- A login fails at the first of two nodes after one has succeeded at the second, and the
event arrives at both. -/
theorem failed_logins_counted_twoNodes :
    ∃ es : List (LoginEvent Bool), AllInStep "1.2.3.4" es ∧ failedLogins es = 1 ∧
      (run "1.2.3.4" es).Quiet ∧ ∀ n, (run "1.2.3.4" es).counter "1.2.3.4" n = 1 := by
  have hstep : AllInStep "1.2.3.4"
      [.echo true 0, .echo false 0, .failed false, .succeeded true] := by
    refine ⟨⟨by simp, by simp⟩, ⟨by simp, by simp⟩, ⟨?_, by simp⟩, ⟨by simp, ?_⟩, trivial⟩
    · rintro n ⟨⟩
      decide +kernel
    · rintro n ⟨⟩
      exact ⟨fun n => rfl, fun m _ => rfl⟩
  have hquiet : (run "1.2.3.4" [.echo true 0, .echo false 0, .failed false,
      .succeeded true]).Quiet := by
    intro n
    cases n <;> decide +kernel
  exact ⟨_, hstep, rfl, hquiet, (failed_logins_counted hstep).2 hquiet⟩

/-- A login fails, the next one succeeds and resets the counter; then the event about the
failed one arrives, and its value is stored again. -/
theorem late_echo_restores :
    ¬ ∀ es : List (LoginEvent Unit), (run "1.2.3.4" es).Quiet →
      ∀ n, (run "1.2.3.4" es).counter "1.2.3.4" n = failedLogins es := by
  intro h
  have hquiet : (run "1.2.3.4" [.echo () 0, .succeeded (), .failed ()]).Quiet := by
    rintro ⟨⟩
    decide +kernel
  exact absurd (h _ hquiet ()) (by decide +kernel)

end Cluster

end Rauthy
