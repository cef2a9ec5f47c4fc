/-
Rauthy/DeviceWarnings.lean

The poll interval of the device grant.  A poll that comes too early gets a warning, and the
third warning is meant to be the last: the code is deleted.  But the poll that deletes it
goes on, and saves the record again, or returns tokens if the code was accepted.

Requests are executed one after the other here.  `violations` counts the violations of the
interval in the log; the record counts them in its `warnings`.

Main results: `third_violation_final`, which says when the third violation is the last, and
`third_violation_survived`.
-/
import Rauthy.DeviceFlow

namespace Rauthy

open Prog Pool

/-! ### Violations of the interval -/

/-- The record that the poll `t` violates by reading the clock at `ms`: what it has looked
up just before, alive and its own. -/
def violation (data : AppState) (t : ℕ) (ms : Int) : DeviceLog → Option DeviceAuthCode
  | .op t₁ .now ms₁ :: .op t₂ (.cacheGet .deviceCodes _) (.ok (some (.deviceAuthCode c))) ::
      .start t₃ (.poll _ payload) :: _ =>
      if t₁ = t ∧ t₂ = t ∧ t₃ = t ∧ ms₁ ≤ c.exp ∧ payload.deviceCode = some c.deviceCode ∧
          payload.clientId = some c.clientId ∧ payload.clientSecret = c.clientSecret ∧
          ms - data.deviceGrantPollInterval * 1000 + 500 < c.lastPoll then
        some c
      else none
  | _ => none

/-- The number of violations of the device code `d`. -/
def violations (data : AppState) (d : String) : DeviceLog → ℕ
  | .op t .now ms :: l =>
      match violation data t ms l with
      | some c => (if c.deviceCode = d then 1 else 0) + violations data d l
      | none => violations data d l
  | _ :: l => violations data d l
  | [] => 0

/-- The third violation of the device code `d`, or a later one, by a poll that has ended. -/
def ThirdViolation (data : AppState) (d : String) (t : ℕ) (l : DeviceLog) : Prop :=
  (∃ r, .done t r ∈ l) ∧ ∃ l₂ l₁ ms c, l = l₂ ++ .op t .now ms :: l₁ ∧
    violation data t ms l₁ = some c ∧ c.deviceCode = d ∧ 2 ≤ violations data d l₁

/-! ### The condition -/

/-- A read or a write of the database or the caches that was not refused. -/
def answered : (o : Op) → o.Res → Bool
  | .select _ _, .error _ => false
  | .cacheGet _ _, .error _ => false
  | .cachePut _ _ _, .error _ => false
  | .cacheDel _ _, .error _ => false
  | _, _ => true

/-- The user and the client of a record can be loaded. -/
structure Serves (w : World) (uid clientId : String) : Prop where
  user : ∃ u ∈ w.db .users, u.id = uid
  userEntry : ∀ v, w.cache .users (User.cacheIdx uid) = some v → ∃ u, v = .user u
  client : ∃ c ∈ w.db .clients, c.id = clientId
  clientEntry : ∀ v, w.cache .c12hr (Client.getCacheEntry clientId) = some v → ∃ c, v = .client c

/-- Whoever is found under this id has expired at `ms`. -/
def Expired (w : World) (uid : String) (ms : Int) : Prop :=
  ∀ u : User, (w.cache .users (User.cacheIdx uid) = some (.user u) ∨ u ∈ w.db .users ∧ u.id = uid) →
    ∃ exp, u.userExpires = some exp ∧ exp ≤ ms / 1000

/-- One request after the other, and the polls are answered by the database and the caches.
The first two violations of a code come before it is accepted, or end with its tokens; the
third hits a code that was accepted by a user who is gone or has expired. -/
structure Lenient (data : AppState) (w : World) (l : DeviceLog) (e : DeviceEvent) : Prop where
  sequential : OneByOne w l e
  answered : ∀ t o x ip payload, e = .op t o x → .start t (.poll ip payload) ∈ l →
    Rauthy.answered o x = true
  early : ∀ t ms c, e = .op t .now ms → violation data t ms l = some c →
    violations data c.deviceCode l < 2 →
    c.verifiedBy = none ∨ ∃ uid, c.verifiedBy = some uid ∧ Serves w uid c.clientId
  late : ∀ t ms c, e = .op t .now ms → violation data t ms l = some c →
    2 ≤ violations data c.deviceCode l → ∃ uid, c.verifiedBy = some uid ∧ Expired w uid ms

/-! ### What is promised -/

/-- No poll of the code returns tokens, from its third violation on. -/
def NoTokensAfterThird (data : AppState) (e : DeviceEvent) (l : DeviceLog) : Prop :=
  ∀ t ip poll d a, e = .done t (.ok (.polled (.ok a))) → .start t (.poll ip poll) ∈ l →
    poll.deviceCode = some d → ∀ t', ¬ ThirdViolation data d t' (e :: l)

/-- What is promised whenever no request is in flight: a code with a third violation is
gone, and the counter is far from its bound. -/
structure ThirdIsFinal (data : AppState) (w : World) (l : DeviceLog) : Prop where
  gone : ∀ d t k c, ThirdViolation data d t l → w.cache .deviceCodes k = some (.deviceAuthCode c) →
    c.deviceCode ≠ d
  small : ∀ k c, w.cache .deviceCodes k = some (.deviceAuthCode c) → c.warnings + 1 < 2 ^ 8

/-! ### Violations in the log of a request -/

section Violations

variable {data : AppState} {d : String} {t : ℕ} {ms : Int} {l l₁ l₂ evs : DeviceLog}
  {c : DeviceAuthCode} {q : DeviceReq}
  {ms₁ : Int} {k : String}
  {payload : TokenRequest}

/-- The conditions under which a poll with this request violates the record `c` at `ms`. -/
def Violates (data : AppState) (payload : TokenRequest) (c : DeviceAuthCode) (ms₁ ms : Int) : Prop :=
  ms₁ ≤ c.exp ∧ payload.deviceCode = some c.deviceCode ∧ payload.clientId = some c.clientId ∧
    payload.clientSecret = c.clientSecret ∧
    ms - data.deviceGrantPollInterval * 1000 + 500 < c.lastPoll

theorem violation_eq_some (h : violation data t ms l = some c) : ∃ ms₁ k ip payload l₀,
    l = .op t .now ms₁ :: .op t (.cacheGet .deviceCodes k) (.ok (some (.deviceAuthCode c))) ::
      .start t (.poll ip payload) :: l₀ ∧ Violates data payload c ms₁ ms := by
  unfold violation at h
  split at h
  · next t₁ ms₁ t₂ k c' t₃ ip payload l₀ =>
      split at h
      · next hc =>
          obtain ⟨rfl, rfl, rfl, hv⟩ := hc
          cases h
          exact ⟨ms₁, k, ip, payload, l₀, rfl, hv⟩
      · cases h
  · cases h

theorem violation_of_violates {ip : Option String} (h : Violates data payload c ms₁ ms) :
    violation data t ms (.op t .now ms₁ ::
      .op t (.cacheGet .deviceCodes k) (.ok (some (.deviceAuthCode c))) ::
      .start t (.poll ip payload) :: l) = some c := by
  unfold violation
  exact if_pos ⟨rfl, rfl, rfl, h⟩

/-- The end of a poll's operations that violates the interval. -/
def pollOps (t : ℕ) (k : String) (c : DeviceAuthCode) (ms₁ ms : Int) : DeviceLog :=
  [.op t .now ms, .op t .now ms₁,
    .op t (.cacheGet .deviceCodes k) (.ok (some (.deviceAuthCode c)))]

theorem violation_split (hevs : OpsOf t evs) (hf : Log.Fresh t l)
    (h : evs ++ .start t q :: l = l₂ ++ .op t .now ms :: l₁)
    (hv : violation data t ms l₁ = some c) : ∃ ms₁ k ip payload, q = .poll ip payload ∧
      evs = l₂ ++ pollOps t k c ms₁ ms ∧ l₁ = .op t .now ms₁ ::
        .op t (.cacheGet .deviceCodes k) (.ok (some (.deviceAuthCode c))) :: .start t q :: l ∧
      Violates data payload c ms₁ ms := by
  obtain ⟨ms₁, k, ip, payload, l₀, rfl, hviol⟩ := violation_eq_some hv
  have h' : evs ++ .start t q :: l = (l₂ ++ pollOps t k c ms₁ ms) ++
      .start t (.poll ip payload) :: l₀ := by
    rw [h, List.append_assoc]
    rfl
  rcases Log.split_cases h' with ⟨he, hl⟩ | ⟨-, r, hr⟩ | ⟨r, hr⟩
  · cases he
    subst hl
    exact ⟨ms₁, k, ip, payload, rfl, List.append_cancel_right h', rfl, hviol⟩
  · -- the request has started only once
    exact absurd rfl (hf (.start t (.poll ip payload)) (by rw [hr]; simp))
  · rw [hr, ← List.cons_append, ← List.append_assoc] at h'
    have hmem : .start t (.poll ip payload) ∈ evs := by
      rw [List.append_cancel_right h']
      simp
    obtain ⟨o, x, he⟩ := hevs _ hmem
    cases he

theorem violations_of_none (hevs : OpsOf t evs)
    (h : ∀ l₂ l₁ ms, evs ++ .start t q :: l = l₂ ++ .op t .now ms :: l₁ →
      violation data t ms l₁ = none) :
    violations data d (evs ++ .start t q :: l) = violations data d l := by
  induction evs with
  | nil => rfl
  | cons e evs ih =>
      have hevs' : OpsOf t evs := fun e' he' => hevs e' (List.mem_cons_of_mem _ he')
      have hih := ih hevs' fun l₂ l₁ ms hl => h (e :: l₂) l₁ ms (by rw [List.cons_append, hl]; rfl)
      obtain ⟨o, x, rfl⟩ := hevs e List.mem_cons_self
      cases o with
      | now =>
          have hnone := h [] (evs ++ .start t q :: l) x rfl
          rw [List.cons_append, violations, hnone]
          exact hih
      | _ => exact hih

theorem violation_none_of_quiet (hevs : OpsOf t evs) (hf : Log.Fresh t l)
    (h : ∀ l₂ k c ms₁ ms, evs ≠ l₂ ++ pollOps t k c ms₁ ms)
    (hl : evs ++ .start t q :: l = l₂ ++ .op t .now ms :: l₁) : violation data t ms l₁ = none := by
  rcases hv : violation data t ms l₁ with - | c
  · rfl
  · obtain ⟨ms₁, k, _, _, _, heq, _⟩ := violation_split hevs hf hl hv
    exact absurd heq (h l₂ k c ms₁ ms)

theorem violation_none_of_other (hevs : OpsOf t evs) (hf : Log.Fresh t l)
    (hq : ∀ ip payload, q ≠ .poll ip payload)
    (hl : evs ++ .start t q :: l = l₂ ++ .op t .now ms :: l₁) : violation data t ms l₁ = none := by
  rcases hv : violation data t ms l₁ with - | c
  · rfl
  · obtain ⟨_, _, ip, payload, rfl, _⟩ := violation_split hevs hf hl hv
    exact absurd rfl (hq ip payload)

/-- What comes after the clock has been read twice violates nothing more. -/
theorem violations_after (hevs : OpsOf t evs) :
    violations data d (evs ++ (pollOps t k c ms₁ ms ++ l)) =
      violations data d (pollOps t k c ms₁ ms ++ l) := by
  induction evs with
  | nil => rfl
  | cons e evs ih =>
      have hevs' : OpsOf t evs := fun e' he' => hevs e' (List.mem_cons_of_mem _ he')
      obtain ⟨o, x, rfl⟩ := hevs e List.mem_cons_self
      have hnone : ∀ ms', violation data t ms' (evs ++ (pollOps t k c ms₁ ms ++ l)) = none := by
        intro ms'
        rcases hv : violation data t ms' (evs ++ (pollOps t k c ms₁ ms ++ l)) with - | c'
        · rfl
        -- the third event below would have to be the start of the request
        obtain ⟨ms₂, k', ip, payload, l₀, heq, -⟩ := violation_eq_some hv
        exfalso
        rcases evs with - | ⟨e₁, - | ⟨e₂, - | ⟨e₃, evs⟩⟩⟩
        · cases heq
        · cases heq
        · cases heq
        · obtain ⟨o', x', he⟩ := hevs' e₃ (by simp)
          rw [he] at heq
          cases heq
      cases o with
      | now =>
          rw [List.cons_append, violations, hnone]
          exact ih hevs'
      | _ => exact ih hevs'

theorem violations_pollOps {ip : Option String} :
    violations data d (pollOps t k c ms₁ ms ++ .start t (.poll ip payload) :: l) =
      (if (violation data t ms (.op t .now ms₁ ::
        .op t (.cacheGet .deviceCodes k) (.ok (some (.deviceAuthCode c))) ::
        .start t (.poll ip payload) :: l)).any (·.deviceCode = d) then 1 else 0) +
      violations data d l := by
  have hnone : violation data t ms₁ (.op t (.cacheGet .deviceCodes k)
      (.ok (some (.deviceAuthCode c))) :: .start t (.poll ip payload) :: l) = none := rfl
  show violations data d (.op t .now ms :: .op t .now ms₁ ::
    .op t (.cacheGet .deviceCodes k) (.ok (some (.deviceAuthCode c))) ::
    .start t (.poll ip payload) :: l) = _
  rw [violations, violations, hnone]
  rcases violation data t ms _ with - | c'
  · simp [violations]
  · simp [violations]

theorem violations_append (data : AppState) (d : String) (m l : DeviceLog) :
    violations data d l ≤ violations data d (m ++ l) := by
  induction m with
  | nil => exact Nat.le_refl _
  | cons e m ih =>
      cases e with
      | start t q => exact ih
      | done t r => exact ih
      | op t o x =>
          cases o with
          | now =>
              rw [List.cons_append, violations]
              split
              · exact Nat.le_trans ih (Nat.le_add_left _ _)
              · exact ih
          | _ => exact ih

theorem ThirdViolation.counted (h : ThirdViolation data d t l) : violations data d l ≠ 0 := by
  obtain ⟨-, l₂, l₁, ms, c, rfl, hv, hd, -⟩ := h
  have hle := violations_append data d l₂ (.op t .now ms :: l₁)
  rw [violations, hv] at hle
  simp only [hd, if_true] at hle
  omega

end Violations

/-! ### One poll -/

section Poll

variable {data : AppState} {t : ℕ} {w : World} {l : DeviceLog} {c : DeviceAuthCode} {k : String}
  {w' : World} {evs : DeviceLog} {ms₁ ms : Int} {q : DeviceReq} {uid clientId : String}
  {user : User} {client : Client} {r : Except (Fault ErrorResponse) DeviceAnswer}
  {s : World × DeviceLog}
  {cs : List (CacheName × Slot)}

/-- No device code is in `w'` that was not there before. -/
structure FewerCodes (w w' : World) : Prop where
  codes : ∀ k v, w'.cache .deviceCodes k = some v → w.cache .deviceCodes k = some v
  issued : ∀ s ∈ w.issued, s ∈ w'.issued

theorem FewerCodes.refl (w : World) : FewerCodes w w := ⟨fun _ _ h => h, fun _ h => h⟩

theorem FewerCodes.trans {w₁ w₂ w₃ : World} (h₁ : FewerCodes w₁ w₂) (h₂ : FewerCodes w₂ w₃) :
    FewerCodes w₁ w₃ :=
  ⟨fun k v h => h₁.codes k v (h₂.codes k v h), fun s hs => h₂.issued s (h₁.issued s hs)⟩

theorem FewerCodes.of_frame {ts : List Table} (h : Frame ts cs w w')
    (hcs : ∀ p ∈ cs, p.1 ≠ .deviceCodes) : FewerCodes w w' := by
  refine ⟨fun k v hv => ?_, h.issued⟩
  rcases h.cache _ _ _ hv with hold | hnew
  · exact hold
  · exact absurd rfl (hcs _ hnew)

theorem fewerCodes_del (w : World) (k : String) : FewerCodes w (w.del .deviceCodes k) :=
  .of_frame (frame_del [] [] w .deviceCodes k) (by simp)

/-- The steps of request `t`, with the log. -/
abbrev warnStep (data : AppState) (t : ℕ) :
    (o : Op) → World × DeviceLog → o.Res → World × DeviceLog → Prop :=
  logged sem (Lenient data) t

/-- How the lookup of a poll ends: with a record, or without, and then nothing else has
happened. -/
inductive LookupEnd (t : ℕ) (w : World) (q : DeviceReq) (l : DeviceLog) :
    Except (Fault ErrorResponse) (Option DeviceAuthCode) → World × DeviceLog → Prop
  | found {k : String} {c : DeviceAuthCode} {ms : Int}
      (hc : w.cache .deviceCodes k = some (.deviceAuthCode c)) (halive : ms ≤ c.exp) :
      LookupEnd t w q l (.ok (some c)) ({ w with clock := ms }, .op t .now ms ::
        .op t (.cacheGet .deviceCodes k) (.ok (some (.deviceAuthCode c))) :: .start t q :: l)
  | none {r : Except (Fault ErrorResponse) (Option DeviceAuthCode)} {w' : World}
      (evs : DeviceLog) (hr : ∀ c, r ≠ .ok (some c)) (hw : FewerCodes w w') (hevs : OpsOf t evs)
      (hquiet : ∀ l₂ k c ms₁ ms, evs ≠ l₂ ++ pollOps t k c ms₁ ms) :
      LookupEnd t w q l r (w', evs ++ .start t q :: l)

theorem fewerCodes_clock (w : World) (ms : Int) : FewerCodes w { w with clock := ms } :=
  ⟨fun _ _ h => h, fun _ h => h⟩

/-- The lookup that finds an expired record tries to delete it. -/
theorem outcomes_deleteExpired :
    Outcomes (warnStep data t) (c.delete data) (w, l) fun _ s => FewerCodes w s.1 ∧
      (s.2 = l ∨ ∃ k x, s.2 = .op t (.cacheDel .deviceCodes k) x :: l) := by
  refine outcomes_bind (outcomes_unwrap (fun key _ => ?_) fun _ => ⟨.refl _, .inl rfl⟩)
  refine outcomes_call fun x s₁ hx => ?_
  obtain ⟨hsem, -, hlog⟩ := hx
  have hend : FewerCodes w s₁.1 ∧
      (s₁.2 = l ∨ ∃ k x, s₁.2 = .op t (.cacheDel .deviceCodes k) x :: l) := by
    refine ⟨?_, .inr ⟨key, x, hlog⟩⟩
    rcases sem_cacheDel.mp hsem with ⟨-, hw⟩ | ⟨e, -, hw | hw⟩
    · rw [hw]
      exact fewerCodes_del _ _
    · rw [hw]
      exact .refl _
    · rw [hw]
      exact fewerCodes_del _ _
  exact outcomes_answer (fun _ _ => hend) fun _ _ => hend

/-- A short list of operations is not the end of a violation. -/
theorem ne_pollOps_of_short {l₂ : DeviceLog} (h : evs.length < 3) :
    evs ≠ l₂ ++ pollOps t k c ms₁ ms := by
  rintro rfl
  simp [pollOps] at h

theorem ne_pollOps_of_delete {l₂ : DeviceLog} {ms₂ : Int} {k₁ k₂ : String} {c' : DeviceAuthCode}
    {x : Except ErrorResponse Unit} :
    [.op t (.cacheDel .deviceCodes k₁) x, .op t .now ms,
      .op t (.cacheGet .deviceCodes k₂) (.ok (some (.deviceAuthCode c)))] ≠
    l₂ ++ pollOps t k c' ms₁ ms₂ := by
  intro heq
  rcases l₂ with - | ⟨e, l₂⟩
  · cases heq
  · have hlen := congrArg List.length heq
    simp [pollOps] at hlen

/-- What the lookup does with a record that it has found. -/
theorem outcomes_checkAlive (hc : w.cache .deviceCodes k = some (.deviceAuthCode c)) :
    Outcomes (warnStep data t) (do
        let ms ← now
        if c.exp < ms then
          c.delete data
          return none
        else return some c)
      (w, .op t (.cacheGet .deviceCodes k) (.ok (some (.deviceAuthCode c))) :: .start t q :: l)
      (LookupEnd t w q l) := by
  refine outcomes_bind (outcomes_call fun ms s₁ hx => outcomes_ret ?_)
  obtain ⟨hsem, -, hlog⟩ := hx
  obtain ⟨w₁, l₁⟩ := s₁
  simp only at hsem hlog
  subst hlog
  obtain ⟨-, rfl⟩ := sem_now.mp hsem
  simp only
  split
  · refine outcomes_bind (outcomes_mono outcomes_deleteExpired fun r s ⟨hw, hs⟩ => ?_)
    have hw' : FewerCodes w s.1 := (fewerCodes_clock w ms).trans hw
    have hend : ∀ r', (∀ c, r' ≠ .ok (some c)) → LookupEnd t w q l r' s := by
      intro r' hr'
      obtain ⟨w', l'⟩ := s
      simp only at hs hw'
      rcases hs with rfl | ⟨k', x, rfl⟩
      · refine .none [_, _] hr' hw' ?_ fun _ _ _ _ _ => ne_pollOps_of_short (by simp)
        simp [OpsOf]
      · refine .none [_, _, _] hr' hw' ?_ fun _ _ _ _ _ => ne_pollOps_of_delete
        simp [OpsOf]
    cases r with
    | ok u => exact outcomes_ret (hend _ (by simp))
    | error e => exact hend _ (by simp)
  · next hexp => exact outcomes_ret (.found hc (Int.not_lt.mp hexp))

theorem outcomes_findByDeviceCode {dc : String} :
    Outcomes (warnStep data t) (DeviceAuthCode.findByDeviceCode data dc) (w, .start t q :: l)
      (LookupEnd t w q l) := by
  have hnone : ∀ {r : Except (Fault ErrorResponse) (Option DeviceAuthCode)} {w' : World}
      {k : String} {x : Except ErrorResponse (Option CacheVal)}, (∀ c, r ≠ .ok (some c)) →
      FewerCodes w w' →
      LookupEnd t w q l r (w', .op t (.cacheGet .deviceCodes k) x :: .start t q :: l) := by
    intro r w' k x hr hw
    refine .none [_] hr hw ?_ fun _ _ _ _ _ => ne_pollOps_of_short (by simp)
    simp [OpsOf]
  refine outcomes_bind (outcomes_unwrap (fun key _ => ?_) fun _ => ?_)
  · refine outcomes_bind (outcomes_bind (outcomes_call fun x s₁ hx => ?_))
    obtain ⟨hsem, -, hlog⟩ := hx
    obtain ⟨w₁, l₁⟩ := s₁
    simp only at hsem hlog
    subst hlog
    rcases sem_cacheGet.mp hsem with ⟨rfl, rfl⟩ | ⟨rfl, rfl⟩ | ⟨e, rfl, rfl⟩
    · rcases hv : w₁.cache .deviceCodes key with - | v
      · exact outcomes_ret (outcomes_ret (outcomes_ret (hnone (by simp) (.refl _))))
      · refine outcomes_ret (outcomes_bind (outcomes_okOr (fun c hc => ?_) fun _ => ?_))
        · rw [CacheVal.deviceAuthCode?_eq_some.mp hc] at hv ⊢
          exact outcomes_ret (outcomes_checkAlive hv)
        · exact hnone (by simp) (.refl _)
    · exact outcomes_ret (outcomes_ret (outcomes_ret (hnone (by simp) (fewerCodes_del _ _))))
    · exact outcomes_fail (hnone (by simp) (.refl _))
  · refine .none [] (by simp) (.refl _) ?_ fun _ _ _ _ _ => ne_pollOps_of_short (by simp)
    simp [OpsOf]

/-- What holds between two requests. -/
structure WarnInv (data : AppState) (w : World) (l : DeviceLog) : Prop where
  key : ∀ k c, w.cache .deviceCodes k = some (.deviceAuthCode c) →
    Text.sliceTo c.deviceCode data.deviceGrantUserCodeLength = some k
  counts : ∀ k c, w.cache .deviceCodes k = some (.deviceAuthCode c) →
    c.warnings = violations data c.deviceCode l ∧ c.warnings ≤ 2
  issued : ∀ k c, w.cache .deviceCodes k = some (.deviceAuthCode c) → c.deviceCode ∈ w.issued
  known : ∀ d, violations data d l ≠ 0 → d ∈ w.issued
  gone : ∀ d t k c, ThirdViolation data d t l →
    w.cache .deviceCodes k = some (.deviceAuthCode c) → c.deviceCode ≠ d

/-- How a poll ends that was sent alone from `w`. -/
structure PollEnd (data : AppState) (t : ℕ) (payload : TokenRequest) (w : World) (l : DeviceLog)
    (r : Except (Fault ErrorResponse) DeviceAnswer) (s : World × DeviceLog) : Prop where
  entries : ∀ k c, s.1.cache .deviceCodes k = some (.deviceAuthCode c) →
    (∃ c₀, w.cache .deviceCodes k = some (.deviceAuthCode c₀) ∧ c.deviceCode = c₀.deviceCode) ∧
    c.warnings = violations data c.deviceCode s.2 ∧ c.warnings ≤ 2
  third : ∀ l₂ l₁ ms c, s.2 = l₂ ++ .op t .now ms :: l₁ → violation data t ms l₁ = some c →
    2 ≤ violations data c.deviceCode l₁ →
    (∀ k c', s.1.cache .deviceCodes k = some (.deviceAuthCode c') → c'.deviceCode ≠ c.deviceCode) ∧
    ∀ ts, r ≠ .ok (.ok ts)
  tokens : ∀ ts, r = .ok (.ok ts) → ∃ k c, w.cache .deviceCodes k = some (.deviceAuthCode c) ∧
    payload.deviceCode = some c.deviceCode
  issued : ∀ d ∈ w.issued, d ∈ s.1.issued
  known : ∀ d, violations data d s.2 ≠ violations data d l →
    ∃ k c, w.cache .deviceCodes k = some (.deviceAuthCode c) ∧ c.deviceCode = d
  log : ∃ evs, OpsOf t evs ∧ ∃ q, s.2 = evs ++ .start t q :: l

variable {payload : TokenRequest} {ip : Option String}

/-! #### Answers of the database and the caches -/

/-- Request `t` is a poll. -/
def Polling (t : ℕ) (l : DeviceLog) : Prop := ∃ ip payload, .start t (.poll ip payload) ∈ l

section Answered

variable {α : Type} {p : M ErrorResponse α}
  {Q : Except (Fault ErrorResponse) α → World × DeviceLog → Prop}
  {n : CacheName}

theorem outcomes_polling (hpoll : Polling t l) (h : Outcomes (warnStep data t) p (w, l) Q) :
    Outcomes (warnStep data t) p (w, l) fun r s => Q r s ∧ Polling t s.2 := by
  intro r s hx
  obtain ⟨ip, payload, hstart⟩ := hpoll
  obtain ⟨-, evs, -, hlog⟩ := exec_logged hx
  refine ⟨h r s hx, ip, payload, ?_⟩
  rw [hlog]
  exact List.mem_append_right _ hstart

theorem outcomes_cacheDel_answered (hpoll : Polling t l) :
    Outcomes (warnStep data t) (cacheDel n k) (w, l) fun r s => r = .ok () ∧ s.1 = w.del n k := by
  obtain ⟨ip, payload, hstart⟩ := hpoll
  refine outcomes_call fun x s hx => ?_
  obtain ⟨hsem, hC, -⟩ := hx
  rcases sem_cacheDel.mp hsem with ⟨rfl, hw⟩ | ⟨e, rfl, -⟩
  · exact outcomes_ret ⟨rfl, hw⟩
  · exact absurd (hC.answered _ _ _ _ _ rfl hstart) (by simp [answered])

theorem outcomes_cachePut_answered {v : CacheVal} (hpoll : Polling t l) :
    Outcomes (warnStep data t) (cachePut n k v) (w, l) fun r s =>
      r = .ok () ∧ s.1 = w.put n k v := by
  obtain ⟨ip, payload, hstart⟩ := hpoll
  refine outcomes_call fun x s hx => ?_
  obtain ⟨hsem, hC, -⟩ := hx
  rcases sem_cachePut.mp hsem with ⟨rfl, hw⟩ | ⟨e, rfl, -⟩
  · exact outcomes_ret ⟨rfl, hw⟩
  · exact absurd (hC.answered _ _ _ _ _ rfl hstart) (by simp [answered])

theorem outcomes_fetchOne_answered {tb : Table} {f : Row tb → Bool} (hpoll : Polling t l)
    (hrow : ∃ r ∈ w.db tb, f r = true) :
    Outcomes (warnStep data t) (fetchOne tb f) (w, l) fun r _ => ∃ a, r = .ok a := by
  obtain ⟨ip, payload, hstart⟩ := hpoll
  refine outcomes_bind (outcomes_call fun x s hx => ?_)
  obtain ⟨hsem, hC, -⟩ := hx
  obtain ⟨-, rfl | ⟨e, rfl⟩⟩ := sem_select.mp hsem
  · refine outcomes_ret (outcomes_okOr (fun a _ => ⟨a, rfl⟩) fun hnone => ?_)
    obtain ⟨r, hr, hf⟩ := hrow
    have hmem : r ∈ (w.db tb).filter f := List.mem_filter.mpr ⟨hr, hf⟩
    rw [List.head?_eq_none_iff.mp hnone] at hmem
    cases hmem
  · exact absurd (hC.answered _ _ _ _ _ rfl hstart) (by simp [answered])

theorem outcomes_cacheGet_answered {as : CacheVal → Option α} (hpoll : Polling t l)
    (hentry : ∀ v, w.cache n k = some v → ∃ a, as v = some a) :
    Outcomes (warnStep data t) (cacheGet n k as) (w, l) fun r s =>
      (∃ x, r = .ok x) ∧ s.1.db = w.db := by
  obtain ⟨ip, payload, hstart⟩ := hpoll
  refine outcomes_bind (outcomes_call fun x s hx => ?_)
  obtain ⟨hsem, hC, -⟩ := hx
  rcases sem_cacheGet.mp hsem with ⟨rfl, hw⟩ | ⟨rfl, hw⟩ | ⟨e, rfl, -⟩
  · rcases hv : w.cache n k with - | v
    · exact outcomes_ret (outcomes_ret ⟨⟨_, rfl⟩, by rw [hw]⟩)
    · obtain ⟨a, ha⟩ := hentry v hv
      refine outcomes_ret (outcomes_bind (outcomes_okOr (fun b _ => ?_) fun hnone => ?_))
      · exact outcomes_ret ⟨⟨_, rfl⟩, by rw [hw]⟩
      · rw [ha] at hnone
        cases hnone
  · exact outcomes_ret (outcomes_ret ⟨⟨_, rfl⟩, by rw [hw]; rfl⟩)
  · exact absurd (hC.answered _ _ _ _ _ rfl hstart) (by simp [answered])

end Answered

theorem outcomes_load_answered {tb : Table} {n : CacheName} {f : Row tb → Bool}
    {key : Row tb → String} {wrap : Row tb → CacheVal} (hpoll : Polling t l)
    (hrow : ∃ r ∈ w.db tb, f r = true) :
    Outcomes (warnStep data t) (do
        let a ← fetchOne tb f
        cachePut n (key a) (wrap a)
        return a)
      (w, l) fun r _ => ∃ a, r = .ok a := by
  refine outcomes_bind (outcomes_mono (outcomes_polling hpoll
    (outcomes_fetchOne_answered hpoll hrow)) fun r₁ s₁ ⟨⟨a, ha⟩, hpoll₁⟩ => ?_)
  subst ha
  refine outcomes_bind (outcomes_mono (outcomes_cachePut_answered hpoll₁)
    fun r₂ s₂ ⟨h₂, _⟩ => ?_)
  subst h₂
  exact outcomes_ret ⟨a, rfl⟩

theorem outcomes_userFind (hpoll : Polling t l) (hs : Serves w uid clientId) :
    Outcomes (warnStep data t) (User.find uid) (w, l) fun r _ => ∃ u, r = .ok u := by
  have hentry : ∀ v, w.cache .users (User.cacheIdx uid) = some v → ∃ u, v.user? = some u := by
    intro v hv
    obtain ⟨u, rfl⟩ := hs.userEntry v hv
    exact ⟨u, rfl⟩
  refine outcomes_bind (outcomes_mono (outcomes_polling hpoll
    (outcomes_cacheGet_answered hpoll hentry))
    fun r s ⟨⟨⟨x, hx⟩, hdb⟩, hpoll₁⟩ => ?_)
  subst hx
  cases x with
  | some u => exact outcomes_ret ⟨u, rfl⟩
  | none =>
      obtain ⟨u, hu, hid⟩ := hs.user
      rw [← hdb] at hu
      exact outcomes_load_answered hpoll₁ ⟨u, hu, by simp [hid]⟩

theorem outcomes_clientFind (hpoll : Polling t l) (hs : Serves w uid clientId) :
    Outcomes (warnStep data t) (Client.find clientId) (w, l) fun r _ => ∃ cl, r = .ok cl := by
  have hentry : ∀ v, w.cache .c12hr (Client.getCacheEntry clientId) = some v →
      ∃ cl, v.client? = some cl := by
    intro v hv
    obtain ⟨cl, rfl⟩ := hs.clientEntry v hv
    exact ⟨cl, rfl⟩
  refine outcomes_bind (outcomes_mono (outcomes_polling hpoll
    (outcomes_cacheGet_answered hpoll hentry))
    fun r s ⟨⟨⟨x, hx⟩, hdb⟩, hpoll₁⟩ => ?_)
  subst hx
  cases x with
  | some cl => exact outcomes_ret ⟨cl, rfl⟩
  | none =>
      obtain ⟨cl, hcl, hid⟩ := hs.client
      rw [← hdb] at hcl
      exact outcomes_load_answered hpoll₁ ⟨cl, hcl, by simp [hid]⟩

/-! #### The rest of a poll -/

/-- The poll comes too early for the record. -/
def TooEarly (data : AppState) (c : DeviceAuthCode) (ms : Int) : Prop :=
  ms - data.deviceGrantPollInterval * 1000 + 500 < c.lastPoll

/-- How a poll ends that has found `c` under `k` in the world `w` at `ms`. -/
structure Rest (data : AppState) (k : String) (c : DeviceAuthCode) (ms : Int) (w : World)
    (r : Except (Fault ErrorResponse) DeviceAnswer) (s : World × DeviceLog) : Prop where
  others : ∀ k' v, k' ≠ k → s.1.cache .deviceCodes k' = some v → w.cache .deviceCodes k' = some v
  own : ∀ v, s.1.cache .deviceCodes k = some v → ∃ c', v = .deviceAuthCode c' ∧
    c'.deviceCode = c.deviceCode ∧ (TooEarly data c ms → c'.warnings = c.warnings + 1) ∧
    (¬ TooEarly data c ms → c'.warnings = c.warnings)
  third : TooEarly data c ms → 2 ≤ c.warnings →
    s.1.cache .deviceCodes k = none ∧ ∀ ts, r ≠ .ok (.ok ts)
  issued : ∀ d ∈ w.issued, d ∈ s.1.issued

/-- What follows when the code has been verified by `uid`. -/
def verifiedPoll (data : AppState) (ip : Option String) (code : DeviceAuthCode) (uid : String)
    (ms : Int) : M ErrorResponse DeviceAnswer := do
  match ← attempt (User.find uid) with
  | .error e => return .internal e
  | .ok user =>
      match ← attempt (Client.find code.clientId) with
      | .error e => return .internal e
      | .ok client => issueDevice data ip code user client ms

theorem outcomes_delete_answered (hpoll : Polling t l)
    (hk : Text.sliceTo c.deviceCode data.deviceGrantUserCodeLength = some k) :
    Outcomes (warnStep data t) (ignoreErr (c.delete data)) (w, l) fun r s =>
      r = .ok () ∧ s.1 = w.del .deviceCodes k := by
  refine outcomes_bind (outcomes_tried (outcomes_bind (outcomes_unwrap (fun key hkey => ?_)
    fun hnone => ?_)))
  · rw [hk] at hkey
    cases hkey
    refine outcomes_mono (outcomes_cacheDel_answered hpoll) fun r s ⟨hr, hs⟩ => ?_
    subst hr
    exact outcomes_ret ⟨rfl, hs⟩
  · rw [hk] at hnone
    cases hnone

theorem outcomes_save_answered (hpoll : Polling t l)
    (hk : Text.sliceTo c.deviceCode data.deviceGrantUserCodeLength = some k) :
    Outcomes (warnStep data t) (ignoreErr (c.save data)) (w, l) fun r s =>
      r = .ok () ∧ s.1 = w.put .deviceCodes k (.deviceAuthCode c) := by
  refine outcomes_bind (outcomes_tried (outcomes_bind (outcomes_unwrap (fun key hkey => ?_)
    fun hnone => ?_)))
  · rw [hk] at hkey
    cases hkey
    refine outcomes_mono (outcomes_cachePut_answered hpoll) fun r s ⟨hr, hs⟩ => ?_
    subst hr
    exact outcomes_ret ⟨rfl, hs⟩
  · rw [hk] at hnone
    cases hnone

theorem issueRest_touches {device : String → DeviceEntity} :
    Touches (.devices :: TokenSet.tables) TokenSet.slots (do
      let id ← newStoreId
      match ← attempt (device id).insert with
      | .error e => return .internal e
      | .ok _ =>
          match ← attempt (TokenSet.fromUser data user client none none c.scopes .no
              (.yes (device id).id)) with
          | .error e => return .internal e
          | .ok ts => return .ok ts : M ErrorResponse DeviceAnswer) := by
  refine touches_bind (touches_getRand 24) fun id => ?_
  refine touches_bind (touches_attempt (touches_execute (by simp [DbWrite.table]))) fun x => ?_
  rcases x with e | _
  · exact touches_ret _
  · refine touches_bind (touches_attempt ((TokenSet.fromUser_touches _ _ _ _ _ _ _ _).mono
      (List.subset_cons_self _ _) (List.Subset.refl _))) fun y => ?_
    rcases y with e | ts
    · exact touches_ret _
    · exact touches_ret _

theorem tokenSlots_ne_deviceCodes : ∀ p ∈ TokenSet.slots, p.1 ≠ .deviceCodes := by decide

theorem outcomes_issueDevice (hpoll : Polling t l)
    (hk : Text.sliceTo c.deviceCode data.deviceGrantUserCodeLength = some k) :
    Outcomes (warnStep data t) (issueDevice data ip c user client ms) (w, l) fun _ s =>
      FewerCodes (w.del .deviceCodes k) s.1 := by
  refine outcomes_bind (outcomes_mono (outcomes_delete_answered hpoll hk) fun r s ⟨hr, hs⟩ => ?_)
  subst hr
  obtain ⟨w₁, l₁⟩ := s
  simp only at hs
  subst hs
  exact outcomes_mono (outcomes_of_touches issueRest_touches) fun _ _ h =>
    .of_frame h.1 tokenSlots_ne_deviceCodes

theorem outcomes_verifiedPoll :
    Outcomes (warnStep data t) (verifiedPoll data ip c uid ms) (w, l) fun _ s =>
      FewerCodes w s.1 := by
  have htouches : Touches (.devices :: TokenSet.tables)
      ((.users, .user) :: (.c12hr, .client) :: TokenSet.slots) (verifiedPoll data ip c uid ms) := by
    refine touches_bind (touches_attempt ((User.find_touches uid).mono (by simp) (by simp)))
      fun x => ?_
    rcases x with e | user
    · exact touches_ret _
    · refine touches_bind (touches_attempt ((Client.find_touches _).mono (by simp) (by simp)))
        fun y => ?_
      rcases y with e | client
      · exact touches_ret _
      · refine touches_bind (touches_ignoreErr ((c.delete_touches data).mono (by simp) (by simp)))
          fun _ => issueRest_touches.mono (List.Subset.refl _) ?_
        exact List.Subset.trans (List.subset_cons_self _ _) (List.subset_cons_self _ _)
  refine outcomes_mono (outcomes_of_touches htouches) fun _ _ h => .of_frame h.1 (by decide)

theorem Serves.of_frame {ts : List Table} (hs : Serves w uid clientId) (h : Frame ts cs w w')
    (hts : .users ∉ ts ∧ .clients ∉ ts)
    (hcs : ∀ p ∈ cs, (p.1 = .users → p.2 = .user) ∧ p.1 ≠ .c12hr) : Serves w' uid clientId where
  user := by
    rw [h.db _ hts.1]
    exact hs.user
  client := by
    rw [h.db _ hts.2]
    exact hs.client
  userEntry v hv := by
    rcases h.cache _ _ _ hv with hold | hnew
    · exact hs.userEntry v hold
    · have hslot := (hcs _ hnew).1 rfl
      cases v with
      | user u => exact ⟨u, rfl⟩
      | _ => cases hslot
  clientEntry v hv := by
    rcases h.cache _ _ _ hv with hold | hnew
    · exact hs.clientEntry v hold
    · exact absurd rfl (hcs _ hnew).2

theorem outcomes_verifiedPoll_serves (hpoll : Polling t l)
    (hk : Text.sliceTo c.deviceCode data.deviceGrantUserCodeLength = some k)
    (hs : Serves w uid c.clientId) :
    Outcomes (warnStep data t) (verifiedPoll data ip c uid ms) (w, l) fun _ s =>
      FewerCodes (w.del .deviceCodes k) s.1 := by
  have hfind : Outcomes (warnStep data t) (User.find uid) (w, l) fun r s =>
      ((∃ u, r = .ok u) ∧ Polling t s.2) ∧ Frame [] [(.users, .user)] w s.1 := fun r s hx =>
    ⟨outcomes_polling hpoll (outcomes_userFind hpoll hs) r s hx,
      (outcomes_of_touches (User.find_touches uid) r s hx).1⟩
  refine outcomes_bind (outcomes_tried (outcomes_mono hfind
    fun r s ⟨⟨⟨user, hr⟩, hpoll₁⟩, hframe₁⟩ => ?_))
  subst hr
  have hs₁ : Serves s.1 uid c.clientId := hs.of_frame hframe₁ (by simp) (by simp)
  have hfind₂ : Outcomes (warnStep data t) (Client.find c.clientId) s fun r s' =>
      ((∃ cl, r = .ok cl) ∧ Polling t s'.2) ∧ Frame [] [(.c12hr, .client)] s.1 s'.1 :=
    fun r s' hx => ⟨outcomes_polling hpoll₁ (outcomes_clientFind hpoll₁ hs₁) r s' hx,
      (outcomes_of_touches (Client.find_touches c.clientId) r s' hx).1⟩
  refine outcomes_bind (outcomes_tried (outcomes_mono hfind₂
    fun r₂ s₂ ⟨⟨⟨client, hr₂⟩, hpoll₂⟩, hframe₂⟩ => ?_))
  subst hr₂
  refine outcomes_mono (outcomes_issueDevice hpoll₂ hk) fun r₃ s₃ h₃ => ?_
  have hold : FewerCodes w s₂.1 :=
    (FewerCodes.of_frame hframe₁ (by simp)).trans (.of_frame hframe₂ (by simp))
  refine ⟨fun k' v hv => ?_, fun d hd => h₃.issued d (hold.issued d hd)⟩
  have hv₂ := h₃.codes k' v hv
  rw [World.del_cache] at hv₂ ⊢
  split at hv₂
  · cases hv₂
  · next hne =>
      rw [if_neg hne]
      exact hold.codes k' v hv₂

theorem not_fromUser_of_expired {fp nonce scopes : Option String} {acf : AuthCodeFlow}
    {dcf : DeviceCodeFlow} {ts : TokenSet} {exp : Int} (hexp : user.userExpires = some exp)
    (hle : exp ≤ w.clock / 1000) :
    ¬ Exec sem (TokenSet.fromUser data user client fp nonce scopes acf dcf) w (.ok ts) w' := by
  intro h
  unfold TokenSet.fromUser at h
  obtain ⟨⟨ca, ci⟩, w₁, hcustoms, hrest⟩ := exec_bind_ok.mp h
  obtain ⟨lt, w₂, hlt, -⟩ := exec_bind_ok.mp hrest
  have hclock := ((TokenSet.customsOf_touches _ _).frame hcustoms).clock
  unfold TokenSet.lifetimeOf at hlt
  rw [hexp] at hlt
  obtain ⟨now, w₃, hnow, hrest₃⟩ := exec_bind_ok.mp hlt
  obtain ⟨_, w₄, hthrow, -⟩ := exec_bind_ok.mp hrest₃
  obtain ⟨hdiff, -⟩ := exec_throwIf_ok.mp hthrow
  obtain ⟨ms, rfl, hms, -⟩ := exec_unixTimestamp.mp hnow
  omega

theorem not_verifiedPoll_of_expired {ts : TokenSet} (hexp : Expired w uid w.clock) :
    ¬ Exec sem (verifiedPoll data ip c uid ms) w (.ok (.ok ts)) w' := by
  intro h
  obtain ⟨x, w₁, hfind, hrest⟩ := exec_bind_ok.mp h
  rcases x with e | user
  · cases hrest.1
  have hclock₁ := (Touches.frame (touches_attempt (User.find_touches uid)) hfind).clock
  obtain ⟨exp, huexp, hle⟩ : ∃ exp, user.userExpires = some exp ∧ exp ≤ w.clock / 1000 := by
    refine hexp user ?_
    rcases exec_cached (exec_tried.mp hfind) with ⟨v, hv, hu, -⟩ | ⟨w₂, w₃, hw₂, hload, -⟩
    · rw [CacheVal.user?_eq_some.mp hu] at hv
      exact .inl hv
    · obtain ⟨hhead, -⟩ := exec_fetchOne.mp hload
      obtain ⟨hmem, hid⟩ := List.mem_filter.mp (List.mem_of_head? hhead)
      refine .inr ⟨?_, by simpa using hid⟩
      rcases hw₂ with rfl | rfl
      · exact hmem
      · exact hmem
  obtain ⟨y, w₂, hclient, hrest₂⟩ := exec_bind_ok.mp hrest
  rcases y with e | client
  · cases hrest₂.1
  have hclock₂ := (Touches.frame (touches_attempt (Client.find_touches c.clientId)) hclient).clock
  obtain ⟨_, w₃, hdel, hrest₃⟩ := exec_bind_ok.mp hrest₂
  have hclock₃ := (Touches.frame (touches_ignoreErr (c.delete_touches data)) hdel).clock
  obtain ⟨id, w₄, hid, hrest₄⟩ := exec_bind_ok.mp hrest₃
  have hrand : Touches [] [] (newStoreId : M ErrorResponse String) := touches_getRand 24
  have hclock₄ := (hrand.frame hid).clock
  obtain ⟨z, w₅, hins, hrest₅⟩ := exec_bind_ok.mp hrest₄
  have hinsert : ∀ d : DeviceEntity, Touches [.devices] [] d.insert := fun d =>
    touches_execute (by simp [DbWrite.table])
  have hclock₅ := (Touches.frame (touches_attempt (hinsert _)) hins).clock
  rcases z with e | _
  · cases hrest₅.1
  obtain ⟨ts', w₆, htokens, hrest₆⟩ := exec_bind_ok.mp hrest₅
  rcases ts' with e | ts'
  · cases hrest₆.1
  exact not_fromUser_of_expired huexp (by omega) (exec_tried.mp htokens)

theorem Expired.congr (h : Expired w uid ms) (hdb : w'.db = w.db)
    (hcache : ∀ k, w'.cache .users k = w.cache .users k) :
    Expired w' uid ms := by
  intro u hu
  rw [hdb, hcache] at hu
  exact h u hu

theorem Serves.congr (h : Serves w uid clientId)
    (hdb : w'.db = w.db) (hcache : w'.cache = w.cache) : Serves w' uid clientId where
  user := by rw [hdb]; exact h.user
  userEntry := by rw [hcache]; exact h.userEntry
  client := by rw [hdb]; exact h.client
  clientEntry := by rw [hcache]; exact h.clientEntry

theorem rest_inTime (hc : w.cache .deviceCodes k = some (.deviceAuthCode c))
    (htime : ¬ TooEarly data c ms) (h : FewerCodes w s.1) : Rest data k c ms w r s where
  others k' v _ hv := h.codes k' v hv
  own v hv := by
    have hold := h.codes k v hv
    rw [hc] at hold
    cases hold
    exact ⟨c, rfl, rfl, fun he => absurd he htime, fun _ => rfl⟩
  third he := absurd he htime
  issued := h.issued

theorem rest_deleted (h : FewerCodes (w.del .deviceCodes k) s.1)
    (htokens : TooEarly data c ms → 2 ≤ c.warnings → ∀ ts, r ≠ .ok (.ok ts)) :
    Rest data k c ms w r s := by
  have hgone : s.1.cache .deviceCodes k = none := by
    rcases hv : s.1.cache .deviceCodes k with - | v
    · rfl
    · have hold := h.codes k v hv
      rw [World.del_cache, if_pos ⟨rfl, rfl⟩] at hold
      cases hold
  refine ⟨fun k' v hne hv => ?_, fun v hv => ?_, fun he h2 => ⟨hgone, htokens he h2⟩, h.issued⟩
  · have hold := h.codes k' v hv
    rw [World.del_cache, if_neg (fun hk => hne hk.2)] at hold
    exact hold
  · rw [hgone] at hv
    cases hv

theorem rest_saved {c' : DeviceAuthCode} (hs : s.1 = w.put .deviceCodes k (.deviceAuthCode c'))
    (hcode : c'.deviceCode = c.deviceCode)
    (hearly : TooEarly data c ms → c'.warnings = c.warnings + 1 ∧ c.warnings < 2)
    (hlate : ¬ TooEarly data c ms → c'.warnings = c.warnings) : Rest data k c ms w r s := by
  refine ⟨fun k' v hne hv => ?_, fun v hv => ?_, fun he h2 => ?_, fun d hd => ?_⟩
  · rw [hs, World.put_cache, if_neg (fun hk => hne hk.2)] at hv
    exact hv
  · rw [hs, World.put_cache, if_pos ⟨rfl, rfl⟩] at hv
    cases hv
    exact ⟨c', rfl, hcode, fun he => (hearly he).1, hlate⟩
  · exact absurd h2 (Nat.not_le.mpr (hearly he).2)
  · rw [hs]
    exact hd

/-- What `checkPoll` makes of a record with at most two warnings. -/
inductive PollCheck (data : AppState) (k : String) (c : DeviceAuthCode) (ms : Int) (w : World) :
    Except (Fault ErrorResponse) (DeviceAuthCode × OAuth2ErrorTypeResponse × String) → World → Prop
  | inTime {e : OAuth2ErrorTypeResponse} {msg : String} (h : ¬ TooEarly data c ms) :
      PollCheck data k c ms w (.ok (c, e, msg)) w
  | slowDown {e : OAuth2ErrorTypeResponse} {msg : String} (h : TooEarly data c ms)
      (hw : c.warnings < 2) :
      PollCheck data k c ms w (.ok ({ c with warnings := c.warnings + 1 }, e, msg)) w
  | denied {e : OAuth2ErrorTypeResponse} {msg : String} (h : TooEarly data c ms)
      (hw : 2 ≤ c.warnings) :
      PollCheck data k c ms w (.ok ({ c with warnings := c.warnings + 1 }, e, msg))
        (w.del .deviceCodes k)

theorem outcomes_checkPoll (hpoll : Polling t l) (hle : c.warnings ≤ 2)
    (hk : Text.sliceTo c.deviceCode data.deviceGrantUserCodeLength = some k) :
    Outcomes (warnStep data t) (checkPoll data c ms) (w, l) fun r s =>
      PollCheck data k c ms w r s.1 := by
  have hmod : (c.warnings + 1) % 2 ^ 8 = c.warnings + 1 := Nat.mod_eq_of_lt (by omega)
  unfold checkPoll
  split
  · next hearly =>
      simp only [hmod]
      split
      · next h3 =>
          refine outcomes_bind (outcomes_mono (outcomes_delete_answered hpoll hk)
            fun r s ⟨hr, hs⟩ => ?_)
          subst hr
          refine outcomes_ret ?_
          rw [hs]
          exact .denied hearly (by omega)
      · next h3 => exact outcomes_ret (.slowDown hearly (by omega))
  · next htime => exact outcomes_ret (.inTime htime)

/-- The rest of a poll that has found a record that is alive and its own. -/
theorem outcomes_rest (hpoll : Polling t l)
    (hk : Text.sliceTo c.deviceCode data.deviceGrantUserCodeLength = some k)
    (hc : w.cache .deviceCodes k = some (.deviceAuthCode c)) (hle : c.warnings ≤ 2)
    (hclock : w.clock = ms) (hearly : TooEarly data c ms → c.warnings < 2 →
      c.verifiedBy = none ∨ ∃ uid, c.verifiedBy = some uid ∧ Serves w uid c.clientId)
    (hlate : TooEarly data c ms → 2 ≤ c.warnings →
      ∃ uid, c.verifiedBy = some uid ∧ Expired w uid ms) :
    Outcomes (warnStep data t) (do
        let (code, error, description) ← checkPoll data c ms
        match code.verifiedBy with
        | some uid => verifiedPoll data ip code uid ms
        | none =>
            ignoreErr (DeviceAuthCode.save data { code with lastPoll := ms })
            return .error 400 error description)
      (w, l) (Rest data k c ms w) := by
  refine outcomes_bind (outcomes_mono (outcomes_polling hpoll (outcomes_checkPoll hpoll hle hk))
    fun r s ⟨hcheck, hpoll₁⟩ => ?_)
  obtain ⟨w₁, l₁⟩ := s
  simp only at hcheck hpoll₁
  cases hcheck with
  | inTime htime =>
      simp only
      rcases hv : c.verifiedBy with - | uid
      · refine outcomes_bind (outcomes_mono (outcomes_save_answered hpoll₁ hk)
          fun r₂ s₂ ⟨hr₂, hs₂⟩ => ?_)
        subst hr₂
        exact outcomes_ret (rest_saved hs₂ rfl (fun he => absurd he htime) fun _ => rfl)
      · exact outcomes_mono outcomes_verifiedPoll fun _ _ h => rest_inTime hc htime h
  | slowDown he hlt =>
      simp only
      rcases hearly he hlt with hv | ⟨uid, hv, hs⟩
      · rw [hv]
        refine outcomes_bind (outcomes_mono (outcomes_save_answered hpoll₁ hk)
          fun r₂ s₂ ⟨hr₂, hs₂⟩ => ?_)
        subst hr₂
        exact outcomes_ret (rest_saved hs₂ rfl (fun _ => ⟨rfl, hlt⟩) fun h => absurd he h)
      · rw [hv]
        refine outcomes_mono (outcomes_verifiedPoll_serves hpoll₁ hk hs) fun r₂ s₂ h => ?_
        exact rest_deleted h fun _ h2 => absurd hlt (Nat.not_lt.mpr h2)
  | denied he h2 =>
      obtain ⟨uid, hv, hexp⟩ := hlate he h2
      simp only
      rw [hv]
      have hexp₁ : Expired (w.del .deviceCodes k) uid (w.del .deviceCodes k).clock := by
        have hclock₁ : (w.del .deviceCodes k).clock = ms := hclock
        rw [hclock₁]
        exact hexp.congr rfl fun k' => by simp [World.del_cache]
      intro r₂ s₂ hx
      refine rest_deleted (outcomes_verifiedPoll r₂ s₂ hx) fun _ _ ts hr₂ => ?_
      subst hr₂
      exact not_verifiedPoll_of_expired hexp₁ (exec_logged hx).1

/-! #### The whole poll -/

/-- The record that was found at `ms₁` is alive, and the request names it. -/
structure Matches (payload : TokenRequest) (c : DeviceAuthCode) (ms₁ : Int) : Prop where
  alive : ms₁ ≤ c.exp
  code : payload.deviceCode = some c.deviceCode
  client : payload.clientId = some c.clientId
  secret : payload.clientSecret = c.clientSecret

theorem Matches.violates (hm : Matches payload c ms₁) (he : TooEarly data c ms) :
    Violates data payload c ms₁ ms :=
  ⟨hm.alive, hm.code, hm.client, hm.secret, he⟩

theorem violations_poll_early (hevs : OpsOf t evs) (hm : Matches payload c ms₁)
    (he : TooEarly data c ms) :
    violations data c.deviceCode (evs ++ (pollOps t k c ms₁ ms ++
      .start t (.poll ip payload) :: l)) = violations data c.deviceCode l + 1 := by
  rw [violations_after hevs, violations_pollOps, violation_of_violates (hm.violates he)]
  simp only [Option.any_some, decide_true, if_true]
  omega

theorem violations_poll_other {d : String} (hevs : OpsOf t evs)
    (h : TooEarly data c ms → c.deviceCode ≠ d) :
    violations data d (evs ++ (pollOps t k c ms₁ ms ++ .start t (.poll ip payload) :: l)) =
      violations data d l := by
  rw [violations_after hevs, violations_pollOps]
  rcases hv : violation data t ms (.op t .now ms₁ ::
    .op t (.cacheGet .deviceCodes k) (.ok (some (.deviceAuthCode c))) ::
    .start t (.poll ip payload) :: l) with - | c'
  · simp
  · obtain ⟨_, _, _, _, _, hl, hviol⟩ := violation_eq_some hv
    cases hl
    simp [h hviol.2.2.2.2]

theorem opsOf_append_pollOps (hevs : OpsOf t evs) :
    OpsOf t (evs ++ pollOps t k c ms₁ ms) := by
  intro e he
  rcases List.mem_append.mp he with he | he
  · exact hevs e he
  · simp only [pollOps, List.mem_cons, List.not_mem_nil, or_false] at he
    rcases he with rfl | rfl | rfl
    · exact ⟨_, _, rfl⟩
    · exact ⟨_, _, rfl⟩
    · exact ⟨_, _, rfl⟩

theorem Rest.pollEnd (hI : WarnInv data w l) (hf : Log.Fresh t l) (hevs : OpsOf t evs)
    (hc : w.cache .deviceCodes k = some (.deviceAuthCode c)) (hm : Matches payload c ms₁)
    {w₁ : World} (hcache : w₁.cache = w.cache)
    (hissued : w₁.issued = w.issued)
    (h : Rest data k c ms w₁ r (w', evs ++ (pollOps t k c ms₁ ms ++ .start t (.poll ip payload) :: l))) :
    PollEnd data t payload w l r
      (w', evs ++ (pollOps t k c ms₁ ms ++ .start t (.poll ip payload) :: l)) := by
  obtain ⟨hwarn, hle⟩ := hI.counts k c hc
  -- the codes of other keys are other codes
  have hother : ∀ k' c', k' ≠ k → w'.cache .deviceCodes k' = some (.deviceAuthCode c') →
      w.cache .deviceCodes k' = some (.deviceAuthCode c') ∧ c'.deviceCode ≠ c.deviceCode := by
    intro k' c' hne hc'
    have hold := h.others k' _ hne hc'
    rw [hcache] at hold
    refine ⟨hold, fun heq => hne ?_⟩
    have hk' := hI.key k' c' hold
    rw [heq, hI.key k c hc] at hk'
    cases hk'
    rfl
  refine ⟨fun k' c' hc' => ?_, fun l₂ l₁ ms' c' hl hv h2 => ?_, fun ts _ => ⟨k, c, hc, hm.code⟩, ?_,
    fun d hd => ?_, ?_⟩
  · by_cases hk : k' = k
    · subst hk
      obtain ⟨_, hval, hsame, hearly, htime⟩ := h.own _ hc'
      cases hval
      refine ⟨⟨c, hc, hsame⟩, ?_⟩
      by_cases he : TooEarly data c ms
      · have hlt : c.warnings < 2 := by
          refine Nat.lt_of_not_le fun h2 => ?_
          rw [(h.third he h2).1] at hc'
          cases hc'
        rw [hsame, violations_poll_early hevs hm he, hearly he]
        omega
      · rw [hsame, violations_poll_other hevs fun h => absurd h he, htime he]
        exact ⟨hwarn, hle⟩
    · obtain ⟨hold, hne⟩ := hother k' c' hk hc'
      rw [violations_poll_other hevs fun _ => hne.symm]
      exact ⟨⟨c', hold, rfl⟩, hI.counts k' c' hold⟩
  · simp only [← List.append_assoc] at hl
    obtain ⟨ms₂, k₂, _, _, hq, heq, hl₁, hviol⟩ := violation_split (opsOf_append_pollOps hevs) hf hl hv
    cases hq
    obtain ⟨-, heq'⟩ := List.append_inj' heq rfl
    cases heq'
    have hsame : violations data c.deviceCode l₁ = violations data c.deviceCode l := by
      rw [hl₁]
      rfl
    rw [hsame, ← hwarn] at h2
    obtain ⟨hgone, htokens⟩ := h.third hviol.2.2.2.2 h2
    refine ⟨fun k' c' hc' => ?_, htokens⟩
    by_cases hk : k' = k
    · rw [hk, hgone] at hc'
      cases hc'
    · exact (hother k' c' hk hc').2
  · rw [← hissued]
    exact h.issued
  · by_cases hd' : TooEarly data c ms ∧ c.deviceCode = d
    · exact ⟨k, c, hc, hd'.2⟩
    · refine absurd (violations_poll_other hevs fun he hd₂ => hd' ⟨he, hd₂⟩) hd
  · exact ⟨evs ++ pollOps t k c ms₁ ms, opsOf_append_pollOps hevs, .poll ip payload,
      by rw [List.append_assoc]⟩

theorem pollEnd_short (evs : DeviceLog) (hI : WarnInv data w l) (hf : Log.Fresh t l)
    (hevs : OpsOf t evs) (hquiet : ∀ l₂ k c ms₁ ms, evs ≠ l₂ ++ pollOps t k c ms₁ ms)
    (hw : FewerCodes w w') (hr : ∀ ts, r ≠ .ok (.ok ts)) :
    PollEnd data t payload w l r (w', evs ++ .start t q :: l) := by
  have hnone : ∀ l₂ l₁ ms, evs ++ .start t q :: l = l₂ ++ .op t .now ms :: l₁ →
      violation data t ms l₁ = none := fun _ _ _ hl => violation_none_of_quiet hevs hf hquiet hl
  have hsame : ∀ d, violations data d (evs ++ .start t q :: l) = violations data d l :=
    fun _ => violations_of_none hevs hnone
  refine ⟨fun k c hc => ?_, fun l₂ l₁ ms c hl hv => ?_, fun ts h => absurd h (hr ts), hw.issued,
    fun d hd => absurd (hsame d) hd, evs, hevs, q, rfl⟩
  · have hold := hw.codes k _ hc
    refine ⟨⟨c, hold, rfl⟩, ?_⟩
    rw [hsame]
    exact hI.counts k c hold
  · rw [hnone l₂ l₁ ms hl] at hv
    cases hv

/-- **A poll on its own.** -/
theorem outcomes_poll (hI : WarnInv data w l) (hf : Log.Fresh t l) :
    Outcomes (warnStep data t) (grantTypeDeviceCode data ip payload)
      (w, .start t (.poll ip payload) :: l) (PollEnd data t payload w l) := by
  unfold grantTypeDeviceCode
  rcases hd : payload.deviceCode with - | dc
  · refine outcomes_ret (pollEnd_short [] hI hf (by simp [OpsOf])
      (fun _ _ _ _ _ => ne_pollOps_of_short (by simp)) (.refl _) (by simp))
  · refine outcomes_bind (outcomes_tried (outcomes_mono outcomes_findByDeviceCode
      fun r s hend => ?_))
    cases hend with
    | none evs hr hw hevs hquiet =>
        rcases r with (e | msg) | - | c
        · exact outcomes_ret (pollEnd_short evs hI hf hevs hquiet hw (by simp))
        · exact pollEnd_short evs hI hf hevs hquiet hw (by simp)
        · exact outcomes_ret (pollEnd_short evs hI hf hevs hquiet hw (by simp))
        · exact absurd rfl (hr c)
    | @found k c ms₁ hc halive =>
        have hshort : ∀ {status : ℕ} {e : OAuth2ErrorTypeResponse} {msg : String},
            PollEnd data t payload w l (.ok (.error status e msg)) ({ w with clock := ms₁ },
              .op t .now ms₁ :: .op t (.cacheGet .deviceCodes k) (.ok (some (.deviceAuthCode c))) ::
                .start t (.poll ip payload) :: l) := by
          intro status e msg
          refine pollEnd_short [_, _] hI hf ?_ (fun _ _ _ _ _ => ne_pollOps_of_short (by simp))
            (fewerCodes_clock w ms₁) (by simp)
          simp [OpsOf]
        simp only
        split
        · exact outcomes_ret hshort
        next hclient =>
        split
        · exact outcomes_ret hshort
        next hcode =>
        split
        · exact outcomes_ret hshort
        next hsecret =>
        have hm : Matches payload c ms₁ := by
          refine ⟨halive, ?_, (not_not.mp hclient).symm, (not_not.mp hsecret).symm⟩
          rw [hd, not_not.mp hcode]
        refine outcomes_bind (outcomes_call fun ms s₁ hx => outcomes_ret ?_)
        obtain ⟨hsem, hC, hlog⟩ := hx
        obtain ⟨w₁, l₁⟩ := s₁
        simp only at hsem hlog
        subst hlog
        obtain ⟨-, rfl⟩ := sem_now.mp hsem
        obtain ⟨hwarn, hle⟩ := hI.counts k c hc
        have hearly : TooEarly data c ms → c.warnings < 2 → c.verifiedBy = none ∨
            ∃ uid, c.verifiedBy = some uid ∧ Serves { w with clock := ms } uid c.clientId := by
          intro he hlt
          rw [hwarn] at hlt
          rcases hC.early t ms c rfl (violation_of_violates (hm.violates he)) hlt with
            hopen | ⟨uid, hv, hs⟩
          · exact .inl hopen
          · exact .inr ⟨uid, hv, hs.congr rfl rfl⟩
        have hlate : TooEarly data c ms → 2 ≤ c.warnings →
            ∃ uid, c.verifiedBy = some uid ∧ Expired { w with clock := ms } uid ms := by
          intro he h2
          rw [hwarn] at h2
          obtain ⟨uid, hv, hexp⟩ :=
            hC.late t ms c rfl (violation_of_violates (hm.violates he)) h2
          exact ⟨uid, hv, hexp.congr rfl fun _ => rfl⟩
        intro r s hx
        have hrest : Rest data k c ms { w with clock := ms } r s :=
          outcomes_rest (w := { w with clock := ms }) ⟨ip, payload, by simp⟩ (hI.key k c hc) hc hle
            rfl hearly hlate r s hx
        obtain ⟨evs, hevs, hl⟩ := (exec_logged hx).2
        obtain ⟨w₂, l₂⟩ := s
        simp only at hl
        subst hl
        have hcache : ({ w with clock := ms } : World).cache = w.cache := rfl
        exact Rest.pollEnd hI hf hevs hc hm hcache rfl hrest

end Poll

/-! ### The other requests -/

section Others

variable {data : AppState} {w w' : World} {c : DeviceAuthCode}
  {w₁ : World}

/-- Every code of `w'` was there before with as many warnings, or it is new. -/
structure Derived (data : AppState) (w w' : World) : Prop where
  entries : ∀ k c, w'.cache .deviceCodes k = some (.deviceAuthCode c) →
    (∃ c₀, w.cache .deviceCodes k = some (.deviceAuthCode c₀) ∧ c.deviceCode = c₀.deviceCode ∧
      c.warnings = c₀.warnings) ∨
    (c.warnings = 0 ∧ c.deviceCode ∉ w.issued ∧ c.deviceCode ∈ w'.issued ∧
      Text.sliceTo c.deviceCode data.deviceGrantUserCodeLength = some k)
  issued : ∀ d ∈ w.issued, d ∈ w'.issued

theorem FewerCodes.derived (h : FewerCodes w w') : Derived data w w' :=
  ⟨fun k c hc => .inl ⟨c, h.codes k _ hc, rfl, rfl⟩, h.issued⟩

theorem outcomes_savedCode {k : String} (hw : FewerCodes w w₁)
    (hnew : (∃ c₀, w.cache .deviceCodes k = some (.deviceAuthCode c₀) ∧
        c.deviceCode = c₀.deviceCode ∧ c.warnings = c₀.warnings) ∨
      (c.warnings = 0 ∧ c.deviceCode ∉ w.issued ∧ c.deviceCode ∈ w₁.issued ∧
        Text.sliceTo c.deviceCode data.deviceGrantUserCodeLength = some k)) :
    Outcomes sem (cachePut .deviceCodes k (.deviceAuthCode c)) w₁ fun _ w' =>
      Derived data w w' := by
  have hput : Derived data w (w₁.put .deviceCodes k (.deviceAuthCode c)) := by
    refine ⟨fun k' c' hc' => ?_, hw.issued⟩
    rw [World.put_cache] at hc'
    split at hc'
    · next hk =>
        obtain ⟨-, rfl⟩ := hk
        cases hc'
        exact hnew
    · exact .inl ⟨c', hw.codes k' _ hc', rfl, rfl⟩
  refine outcomes_call fun x w₂ hx => ?_
  have hw₂ : Derived data w w₂ := by
    rcases sem_cachePut.mp hx with ⟨-, rfl⟩ | ⟨e, -, rfl | rfl⟩
    · exact hput
    · exact hw.derived
    · exact hput
  exact outcomes_answer (fun _ _ => hw₂) fun _ _ => hw₂

theorem outcomes_fewer {α : Type} {p : M ErrorResponse α} {ts : List Table}
    {cs : List (CacheName × Slot)} (hp : Touches ts cs p) (hcs : ∀ p ∈ cs, p.1 ≠ .deviceCodes) :
    Outcomes sem p w fun _ w' => FewerCodes w w' :=
  fun _ _ hx => .of_frame (hp.frame hx) hcs

theorem outcomes_newCode {scopes : Option String} {clientId : String} {secret : Option String}
    (hw : FewerCodes w w₁) :
    Outcomes sem (DeviceAuthCode.new data scopes clientId secret) w₁ fun _ w' =>
      Derived data w w' := by
  refine outcomes_bind (outcomes_call fun ms w₂ hnow => outcomes_ret ?_)
  obtain ⟨-, rfl⟩ := sem_now.mp hnow
  refine outcomes_bind (outcomes_call fun deviceCode w₃ hrand => outcomes_ret ?_)
  obtain ⟨hfresh, -, -, rfl⟩ := sem_getRand.mp hrand
  have hw₃ : FewerCodes w { w₁ with clock := ms, issued := deviceCode :: w₁.issued } :=
    ⟨hw.codes, fun d hd => List.mem_cons_of_mem _ (hw.issued d hd)⟩
  refine outcomes_bind (outcomes_unwrap (fun key hkey => ?_) fun _ => hw₃.derived)
  refine outcomes_bind (outcomes_mono (outcomes_savedCode hw₃ (.inr ⟨rfl, ?_, ?_, hkey⟩))
    fun r w₄ h => ?_)
  · exact fun hd => hfresh (hw.issued _ hd)
  · exact List.mem_cons_self
  · cases r with
    | ok _ => exact outcomes_ret h
    | error e => exact h

theorem outcomes_start {req : HttpRequest} {payload : DeviceGrantRequest} :
    Outcomes sem (postDeviceAuth data req payload) w fun _ w' => Derived data w w' := by
  refine outcomes_bind (outcomes_mono (outcomes_fewer (checkRateLimit_touches data req) (by simp))
    fun r w₁ hw₁ => ?_)
  rcases r with e | - | a
  · exact hw₁.derived
  · refine outcomes_bind (outcomes_mono (outcomes_fewer
      (touches_attempt (Client.find_touches payload.clientId)) (by simp)) fun r w₂ hw₂ => ?_)
    have hw₂ := hw₁.trans hw₂
    rcases r with e | e | client
    · exact hw₂.derived
    · exact outcomes_ret hw₂.derived
    · simp only
      split
      · exact outcomes_ret hw₂.derived
      · refine outcomes_bind (outcomes_tried (outcomes_mono (outcomes_newCode hw₂)
          fun r w₃ hw₃ => ?_))
        rcases r with (e | msg) | code
        · exact outcomes_ret hw₃
        · exact hw₃
        · exact outcomes_bind (outcomes_unwrap (fun _ _ => outcomes_ret hw₃) fun _ => hw₃)
  · exact outcomes_ret hw₁.derived

theorem cached_of_findCode {uc : String} (h : Exec sem (DeviceAuthCode.find data uc) w
    (.ok (some c)) w') : w.cache .deviceCodes uc = some (.deviceAuthCode c) := by
  obtain ⟨x, w₁, hget, hrest⟩ := exec_bind_ok.mp h
  rcases exec_cacheGet.mp hget with ⟨rfl, -⟩ | ⟨c', v, rfl, hv, hc', -⟩
  · cases hrest.1
  · obtain ⟨ms, w₂, -, hrest₂⟩ := exec_bind_ok.mp hrest
    rw [CacheVal.deviceAuthCode?_eq_some.mp hc'] at hv
    split at hrest₂
    · obtain ⟨_, w₃, -, hret⟩ := exec_bind_ok.mp hrest₂
      cases hret.1
    · cases hrest₂.1
      exact hv

theorem DeviceAuthCode.find_touches (data : AppState) (uc : String) :
    Touches [] [] (DeviceAuthCode.find data uc) := by
  refine touches_bind (touches_cacheGet _ _ _) fun x => ?_
  rcases x with - | slf
  · exact touches_ret _
  · refine touches_bind touches_now fun ms => ?_
    split
    · exact touches_bind (slf.delete_touches data) fun _ => touches_ret _
    · exact touches_ret _

theorem PowEntity.checkPreventReuse_touches (challenge : String) :
    Touches [] [] (PowEntity.checkPreventReuse challenge) :=
  touches_bind (touches_cacheGet _ _ _) fun _ => touches_bind (touches_okOr _ _) fun _ =>
    touches_cacheDel _ _

theorem outcomes_decideDevice {k : String} {principal : Principal}
    {accepted : DeviceAcceptedRequest} (hw : FewerCodes w w₁)
    (hc : w.cache .deviceCodes k = some (.deviceAuthCode c))
    (hk : Text.sliceTo c.deviceCode data.deviceGrantUserCodeLength = some k) :
    Outcomes sem (decideDevice data principal c accepted) w₁ fun _ w' => Derived data w w' := by
  cases accepted with
  | accept =>
      refine outcomes_bind (outcomes_answer (fun uid _ => ?_) fun _ _ => hw.derived)
      have hsave : Outcomes sem (DeviceAuthCode.save data { c with verifiedBy := some uid }) w₁
          fun _ w' => Derived data w w' := by
        refine outcomes_bind (outcomes_unwrap (fun key hkey => ?_) fun _ => hw.derived)
        rw [show Text.sliceTo c.deviceCode _ = some k from hk] at hkey
        cases hkey
        exact outcomes_savedCode hw (.inl ⟨c, hc, rfl, rfl⟩)
      refine outcomes_bind (outcomes_mono hsave fun r w₂ hw₂ => ?_)
      cases r with
      | ok _ => exact outcomes_ret hw₂
      | error e => exact hw₂
  | decline =>
      refine outcomes_bind (outcomes_mono (outcomes_fewer (c.delete_touches data) (by simp))
        fun r w₂ hw₂ => ?_)
      cases r with
      | ok _ => exact outcomes_ret (hw.trans hw₂).derived
      | error e => exact (hw.trans hw₂).derived
  | pending => exact outcomes_ret hw.derived

theorem outcomes_verify {req : HttpRequest} {payload : DeviceVerifyRequest}
    (hkey : ∀ k c, w.cache .deviceCodes k = some (.deviceAuthCode c) →
      Text.sliceTo c.deviceCode data.deviceGrantUserCodeLength = some k) :
    Outcomes sem (postDeviceVerify data req payload) w fun _ w' => Derived data w w' := by
  refine outcomes_bind (outcomes_mono (outcomes_fewer (getPrincipal_touches data req) (by simp))
    fun r w₁ hw₁ => ?_)
  rcases r with e | principal
  · exact hw₁.derived
  refine outcomes_bind (outcomes_answer (fun _ _ => ?_) fun _ _ => hw₁.derived)
  refine outcomes_bind (outcomes_answer (fun challenge _ => ?_) fun _ _ => hw₁.derived)
  refine outcomes_bind (outcomes_mono (outcomes_fewer
    (PowEntity.checkPreventReuse_touches challenge) (by simp)) fun r w₂ hw₂ => ?_)
  have hw₂ := hw₁.trans hw₂
  rcases r with e | _
  · exact hw₂.derived
  refine outcomes_bind fun r w₃ hfind => ?_
  have hw₃ : FewerCodes w w₃ := hw₂.trans
    (outcomes_fewer (DeviceAuthCode.find_touches data payload.userCode) (by simp) r w₃ hfind)
  rcases r with e | found
  · exact hw₃.derived
  refine outcomes_bind (outcomes_okOr (fun c hc => ?_) fun _ => hw₃.derived)
  subst hc
  have hcached := hw₂.codes _ _ (cached_of_findCode hfind)
  exact outcomes_decideDevice hw₃ hcached (hkey _ c hcached)

end Others

/-! ### Whole runs -/

section Runs

variable {data : AppState} {w w' : World} {t t' : ℕ} {l evs : DeviceLog} {q : DeviceReq}
  {d : String}
  {a : DeviceOutcome}

/-- A third violation is an earlier one, or one of the request that has just ended. -/
theorem ThirdViolation.cases (hevs : OpsOf t evs) (hf : Log.Fresh t l)
    (h : ThirdViolation data d t' (.done t a :: (evs ++ .start t q :: l))) :
    ThirdViolation data d t' l ∨ ∃ l₂ l₁ ms c, evs ++ .start t q :: l = l₂ ++ .op t .now ms :: l₁ ∧
      violation data t ms l₁ = some c ∧ c.deviceCode = d ∧ 2 ≤ violations data d l₁ := by
  obtain ⟨⟨r, hdone⟩, l₂, l₁, ms, c, hl, hv, hd, h2⟩ := h
  rcases l₂ with - | ⟨e, l₂⟩
  · cases hl
  obtain ⟨-, hl⟩ := List.cons_eq_cons.mp hl
  by_cases htt : t' = t
  · subst htt
    exact .inr ⟨l₂, l₁, ms, c, hl, hv, hd, h2⟩
  · left
    have hdone' : .done t' r ∈ l := by
      rcases List.mem_cons.mp hdone with he | hmem
      · cases he
        exact absurd rfl htt
      · rcases List.mem_cons.mp (hevs.done_mem.mp hmem) with he | hmem
        · cases he
        · exact hmem
    refine ⟨⟨r, hdone'⟩, ?_⟩
    -- the operation is not one of request `t`
    have hop : ∀ e ∈ evs ++ [.start t q], e.tid = t := by
      intro e he
      rcases List.mem_append.mp he with he | he
      · obtain ⟨o, x, rfl⟩ := hevs e he
        rfl
      · rw [List.mem_singleton.mp he]
        rfl
    have hl' : (evs ++ [.start t q]) ++ l = l₂ ++ .op t' .now ms :: l₁ := by
      rw [List.append_assoc]
      exact hl
    rcases List.append_eq_append_iff.mp hl' with ⟨m, rfl, hm⟩ | ⟨m, hm, hm'⟩
    · exact ⟨m, l₁, ms, c, hm, hv, hd, h2⟩
    · rcases m with - | ⟨e, m⟩
      · exact ⟨[], l₁, ms, c, hm'.symm, hv, hd, h2⟩
      · obtain ⟨rfl, -⟩ := List.cons_eq_cons.mp hm'
        exact absurd (hop (.op t' .now ms) (by rw [hm]; simp)) htt

theorem PollEnd.warnInv {payload : TokenRequest} {r : Except (Fault ErrorResponse) DeviceAnswer}
    (hI : WarnInv data w l) (hf : Log.Fresh t l) (hevs : OpsOf t evs)
    (h : PollEnd data t payload w l r (w', evs ++ .start t q :: l)) :
    WarnInv data w' (.done t a :: (evs ++ .start t q :: l)) where
  key k c hc := by
    obtain ⟨⟨c₀, hc₀, hcode⟩, -⟩ := h.entries k c hc
    rw [hcode]
    exact hI.key k c₀ hc₀
  counts k c hc := (h.entries k c hc).2
  issued k c hc := by
    obtain ⟨⟨c₀, hc₀, hcode⟩, -⟩ := h.entries k c hc
    rw [hcode]
    exact h.issued _ (hI.issued k c₀ hc₀)
  known d hd := by
    by_cases hsame : violations data d (evs ++ .start t q :: l) = violations data d l
    · refine h.issued d (hI.known d ?_)
      rw [← hsame]
      exact hd
    · obtain ⟨k, c, hc, rfl⟩ := h.known d hsame
      exact h.issued _ (hI.issued k c hc)
  gone d t' k c hthird hc := by
    rcases hthird.cases hevs hf with hold | ⟨l₂, l₁, ms, c', hl, hv, rfl, h2⟩
    · obtain ⟨⟨c₀, hc₀, hcode⟩, -⟩ := h.entries k c hc
      rw [hcode]
      exact hI.gone d t' k c₀ hold hc₀
    · exact (h.third l₂ l₁ ms c' hl hv h2).1 k c hc

/-- The other requests keep it, too: they violate nothing. -/
theorem Derived.warnInv (hI : WarnInv data w l) (hf : Log.Fresh t l) (hevs : OpsOf t evs)
    (hq : ∀ ip payload, q ≠ .poll ip payload) (h : Derived data w w') :
    WarnInv data w' (.done t a :: (evs ++ .start t q :: l)) := by
  have hsame : ∀ d, violations data d (.done t a :: (evs ++ .start t q :: l)) =
      violations data d l := fun d =>
    violations_of_none hevs fun _ _ _ => violation_none_of_other hevs hf hq
  have hthird : ∀ d t', ThirdViolation data d t' (.done t a :: (evs ++ .start t q :: l)) →
      ThirdViolation data d t' l := by
    intro d t' h'
    rcases h'.cases hevs hf with hold | ⟨l₂, l₁, ms, c, hl, hv, -⟩
    · exact hold
    · rw [violation_none_of_other hevs hf hq hl] at hv
      cases hv
  -- a new code has never been violated
  have hnew : ∀ d, d ∉ w.issued → violations data d l = 0 :=
    fun d hd => not_not.mp fun hne => hd (hI.known d hne)
  refine ⟨fun k c hc => ?_, fun k c hc => ?_, fun k c hc => ?_, fun d hd => ?_,
    fun d t' k c ht hc => ?_⟩
  · rcases h.entries k c hc with ⟨c₀, hc₀, hcode, -⟩ | ⟨-, -, -, hkey⟩
    · rw [hcode]
      exact hI.key k c₀ hc₀
    · exact hkey
  · rw [hsame]
    rcases h.entries k c hc with ⟨c₀, hc₀, hcode, hwarn⟩ | ⟨hwarn, hfresh, -⟩
    · rw [hcode, hwarn]
      exact hI.counts k c₀ hc₀
    · rw [hwarn, hnew _ hfresh]
      omega
  · rcases h.entries k c hc with ⟨c₀, hc₀, hcode, -⟩ | ⟨-, -, hissued, -⟩
    · rw [hcode]
      exact h.issued _ (hI.issued k c₀ hc₀)
    · exact hissued
  · rw [hsame] at hd
    exact h.issued d (hI.known d hd)
  · have hold := hthird d t' ht
    rcases h.entries k c hc with ⟨c₀, hc₀, hcode, -⟩ | ⟨-, hfresh, -⟩
    · rw [hcode]
      exact hI.gone d t' k c₀ hold hc₀
    · rintro rfl
      exact hold.counted (hnew _ hfresh)

/-- **One request** keeps the invariant, and what it answers. -/
theorem warnInv_request {r : DeviceOutcome} {l' : DeviceLog} (hI : WarnInv data w l)
    (hf : Log.Fresh t l)
    (hx : (DeviceReq.prog data q).Exec (logged sem (Lenient data) t) (w, .start t q :: l) r (w', l')) :
    WarnInv data w' (.done t r :: l') ∧ NoTokensAfterThird data (.done t r) l' := by
  obtain ⟨hsem, evs, hevs, hl'⟩ := exec_logged hx
  simp only at hsem hl'
  subst hl'
  -- the program of each request only wraps the answer
  have hwrap : ∀ {α : Type} {p : M ErrorResponse α} {f : α → DeviceReply},
      (do return f (← p) : M ErrorResponse DeviceReply).Exec (logged sem (Lenient data) t)
        (w, .start t q :: l) r (w', evs ++ .start t q :: l) →
      ∃ r₀, p.Exec (logged sem (Lenient data) t) (w, .start t q :: l) r₀
        (w', evs ++ .start t q :: l) ∧ ∀ b, r = .ok b → ∃ a, r₀ = .ok a ∧ b = f a := by
    intro α p f hp
    rcases exec_bind.mp hp with ⟨e, rfl, he⟩ | ⟨a, s₁, ha, hret, rfl⟩
    · exact ⟨.error e, he, by simp⟩
    · subst hret
      refine ⟨.ok a, ha, ?_⟩
      rintro b ⟨⟩
      exact ⟨a, rfl, rfl⟩
  have hnotPoll : (∀ ip payload, q ≠ .poll ip payload) →
      NoTokensAfterThird data (.done t r) (evs ++ .start t q :: l) := by
    intro hq t₁ ip poll d a he hstart
    cases he
    exact absurd ((start_mem_fresh hf).mp (hevs.start_mem.mp hstart)).symm (hq ip poll)
  cases q with
  | start req payload =>
      obtain ⟨r₀, hr₀, -⟩ := hwrap hx
      have hw' := outcomes_start r₀ w' (exec_logged hr₀).1
      exact ⟨hw'.warnInv hI hf hevs (by simp), hnotPoll (by simp)⟩
  | verify req payload =>
      obtain ⟨r₀, hr₀, -⟩ := hwrap hx
      have hw' := outcomes_verify hI.key r₀ w' (exec_logged hr₀).1
      exact ⟨hw'.warnInv hI hf hevs (by simp), hnotPoll (by simp)⟩
  | poll ip payload =>
      obtain ⟨r₀, hr₀, hr⟩ := hwrap hx
      have hend := outcomes_poll hI hf r₀ _ hr₀
      refine ⟨hend.warnInv hI hf hevs, ?_⟩
      intro t₁ ip₁ poll d ts he hstart hd t' hthird
      cases he
      cases (start_mem_fresh hf).mp (hevs.start_mem.mp hstart)
      obtain ⟨a, rfl, ha⟩ := hr _ rfl
      cases ha
      rcases hthird.cases hevs hf with hold | ⟨l₂, l₁, ms, c, hl, hv, hcode, h2⟩
      · obtain ⟨k, c, hc, hcode⟩ := hend.tokens ts rfl
        rw [hd] at hcode
        cases hcode
        exact hI.gone _ t' k c hold hc rfl
      · subst hcode
        exact (hend.third l₂ l₁ ms c hl hv h2).2 ts rfl

/-- **The third violation is the last**, in every run in which the first two of a code come
before its acceptance or end it, and the third hits an acceptance that is worth nothing. -/
theorem third_violation_final {w₀ : World} (hcodes : ∀ k, w₀.cache .deviceCodes k = none)
    {P : DevicePool} (h : Run (DeviceReq.prog data) sem (Lenient data) (init w₀) P) :
    Log.Always (NoTokensAfterThird data) P.log ∧
      (P.Idle → ThirdIsFinal data P.world P.log) := by
  have hinit : WarnInv data w₀ [] := by
    refine ⟨fun k c hc => ?_, fun k c hc => ?_, fun k c hc => ?_, fun d hd => ?_,
      fun d t k c _ hc => ?_⟩
    · rw [hcodes] at hc
      cases hc
    · rw [hcodes] at hc
      cases hc
    · rw [hcodes] at hc
      cases hc
    · exact absurd rfl hd
    · rw [hcodes] at hc
      cases hc
  refine ⟨Run.sequential_always hinit (fun _ _ _ hC => hC.sequential) ?_ ?_ ?_ h, fun hidle => ?_⟩
  · intro t q l t₁ ip poll d a he
    cases he
  · intro t o x l t₁ ip poll d a he
    cases he
  · intro w l t q r w' l' hI hf _ hx _
    exact warnInv_request hI hf hx
  · have hI := (Run.sequential hinit (fun _ _ _ hC => hC.sequential)
      (fun w l t q r w' l' hI hf _ hx _ => (warnInv_request hI hf hx).1) h).1 hidle
    refine ⟨hI.gone, fun k c hc => ?_⟩
    have hle := (hI.counts k c hc).2
    omega

end Runs

/-! ### Alice's television is in a hurry -/

/-- `Expired`, as a test. -/
def expired (w : World) (uid : String) (ms : Int) : Bool :=
  (match w.cache .users (User.cacheIdx uid) with
    | some (.user u) => u.userExpires.any (· ≤ ms / 1000)
    | _ => true) &&
  (w.db .users).all fun u => u.id != uid || u.userExpires.any (· ≤ ms / 1000)

theorem expired_of_test {w : World} {uid : String} {ms : Int} (h : expired w uid ms = true) :
    Expired w uid ms := by
  obtain ⟨h₁, h₂⟩ := Bool.and_eq_true_iff.mp h
  have hsome : ∀ u : User, u.userExpires.any (· ≤ ms / 1000) = true →
      ∃ exp, u.userExpires = some exp ∧ exp ≤ ms / 1000 := by
    intro u hu
    rcases hexp : u.userExpires with - | exp
    · rw [hexp] at hu
      cases hu
    · rw [hexp] at hu
      exact ⟨exp, rfl, of_decide_eq_true hu⟩
  rintro u (hu | ⟨hmem, hid⟩)
  · rw [hu] at h₁
    exact hsome u h₁
  · have hu := List.all_eq_true.mp h₂ u hmem
    rw [hid] at hu
    exact hsome u (by simpa using hu)

/-- `Lenient`, as a test of one event; no code is accepted between its violations. -/
def lenient (data : AppState) (w : World) (l : DeviceLog) : DeviceEvent → Bool
  | .start t q => decide (OneByOne w l (.start t q))
  | .op t .now ms =>
      match violation data t ms l with
      | none => true
      | some c =>
          if violations data c.deviceCode l < 2 then c.verifiedBy.isNone
          else c.verifiedBy.any fun uid => expired w uid ms
  | .op _ o x => answered o x
  | .done _ _ => true

theorem lenient_of_test {data : AppState} {w : World} {l : DeviceLog} {e : DeviceEvent}
    (h : lenient data w l e = true) : Lenient data w l e where
  sequential := by
    cases e with
    | start t q => exact of_decide_eq_true h
    | op t o x => exact fun _ _ he => by cases he
    | done t a => exact fun _ _ he => by cases he
  answered := by
    rintro t o x ip payload rfl -
    cases o with
    | now => rfl
    | _ => exact h
  early := by
    rintro t ms c rfl hv hlt
    rw [lenient, hv] at h
    simp only [hlt, if_true] at h
    exact .inl (Option.isNone_iff_eq_none.mp h)
  late := by
    rintro t ms c rfl hv h2
    rw [lenient, hv] at h
    simp only [Nat.not_lt.mpr h2, if_false] at h
    rcases hc : c.verifiedBy with - | uid
    · rw [hc] at h
      cases h
    · rw [hc] at h
      exact ⟨uid, rfl, expired_of_test h⟩

/-- `ThirdViolation`, as a test. -/
def thirdViolation (data : AppState) (d : String) (t : ℕ) : DeviceLog → Bool
  | .op t' .now ms :: l =>
      (decide (t' = t) && (violation data t ms l).any (fun c => c.deviceCode == d) &&
        decide (2 ≤ violations data d l)) || thirdViolation data d t l
  | _ :: l => thirdViolation data d t l
  | [] => false

theorem thirdViolation_of_test {data : AppState} {d : String} {t : ℕ} {l : DeviceLog}
    (hdone : (Log.doneOf t l).isSome = true) (h : thirdViolation data d t l = true) :
    ThirdViolation data d t l := by
  refine ⟨Log.doneOf_isSome.mp hdone, ?_⟩
  clear hdone
  induction l with
  | nil => cases h
  | cons e l ih =>
      have hrest : thirdViolation data d t l = true → ∃ l₂ l₁ ms c,
          e :: l = l₂ ++ .op t .now ms :: l₁ ∧ violation data t ms l₁ = some c ∧
          c.deviceCode = d ∧ 2 ≤ violations data d l₁ := by
        intro hl
        obtain ⟨l₂, l₁, ms, c, rfl, hc⟩ := ih hl
        exact ⟨e :: l₂, l₁, ms, c, rfl, hc⟩
      cases e with
      | start t' q => exact hrest h
      | done t' a => exact hrest h
      | op t' o x =>
          cases o with
          | now =>
              rcases Bool.or_eq_true_iff.mp h with hthis | hl
              · obtain ⟨h₁₂, h₃⟩ := Bool.and_eq_true_iff.mp hthis
                obtain ⟨h₁, h₂⟩ := Bool.and_eq_true_iff.mp h₁₂
                cases of_decide_eq_true h₁
                rcases hv : violation data t x l with - | c
                · rw [hv] at h₂
                  cases h₂
                · rw [hv] at h₂
                  exact ⟨[], l, x, c, rfl, hv, by simpa using h₂, of_decide_eq_true h₃⟩
              · exact hrest hl
          | _ => exact hrest h

/-- A poll of a code that nobody has accepted yet; the third one deletes it first. -/
def earlyMoves (t : ℕ) (ms : Int) : List (Move DeviceReq Choice) :=
  lookupMoves t ms ++ [.op t .ok, .done t]

/-- Alice's account expires while her television polls. -/
def expiringWorld : World :=
  deviceWorld.put .users "users__alice" (.user { sampleUser with userExpires := some 101 })

theorem third_violation_final_alice :
    ∃ P, Run (DeviceReq.prog sampleState) sem (Lenient sampleState) (init expiringWorld) P ∧
      ThirdViolation sampleState deviceCode 4 P.log ∧
      Log.Always (NoTokensAfterThird sampleState) P.log ∧
      (P.Idle → ThirdIsFinal sampleState P.world P.log) := by
  obtain ⟨P, hrun, hlog⟩ := exists_run_of_moves (DeviceReq.prog sampleState) Op.run
    (lenient sampleState) expiringWorld
    (startMoves 0 ++ earlyMoves 1 100100 ++ earlyMoves 2 100200 ++ decideMoves 3 .accept ++
      [.op 3 .ok, .done 3] ++ lookupMoves 4 101500 ++ [.op 4 .ok, .op 4 .ok, .op 4 .ok, .op 4 .ok,
        .op 4 (.rand "abcdefghijklmnopqrstuvwx"), .op 4 .ok, .op 4 (.time 101500), .done 4])
    (fun P => (Log.doneOf 4 P.log).isSome && thirdViolation sampleState deviceCode 4 P.log)
    (by decide +kernel) (fun _ _ _ h => lenient_of_test h)
  obtain ⟨hd, hthird⟩ := Bool.and_eq_true_iff.mp hlog
  refine ⟨P, hrun, thirdViolation_of_test hd hthird, third_violation_final (fun k => ?_) hrun⟩
  rfl

/-- The third violation deletes the code and saves it again; then it is accepted, and the
television gets its tokens. -/
theorem third_violation_survived :
    ¬ ∀ (data : AppState) (w₀ : World) (P : DevicePool),
      (∀ k, w₀.cache .deviceCodes k = none) →
      Run (DeviceReq.prog data) sem OneByOne (init w₀) P →
      Log.Always (NoTokensAfterThird data) P.log ∧
        (P.Idle → ThirdIsFinal data P.world P.log) := by
  intro h
  obtain ⟨P, hrun, hlog⟩ := exists_run_of_moves (C := OneByOne)
    (DeviceReq.prog sampleState) Op.run (fun w l e => decide (OneByOne w l e)) deviceWorld
    (startMoves 0 ++ earlyMoves 1 100100 ++ earlyMoves 2 100200 ++ lookupMoves 3 100300 ++
      [.op 3 .ok, .op 3 .ok, .done 3] ++ decideMoves 4 .accept ++ [.op 4 .ok, .done 4] ++
      lookupMoves 5 106000 ++ issueMoves 5 106000 "abcdefghijklmnopqrstuvwx")
    (fun P => decide (Log.startOf 5 P.log = some (.poll none pollRequest) ∧
      Log.justDone P.log = some (5, .ok (.polled (.ok codeTokens))) ∧
      (Log.doneOf 3 P.log).isSome = true ∧ thirdViolation sampleState deviceCode 3 P.log = true))
    (by decide +kernel) (fun _ _ _ h => of_decide_eq_true h)
  obtain ⟨hs, hj, hd, hthird⟩ := of_decide_eq_true hlog
  have hlast := Log.eq_of_justDone hj
  have hstart := Log.mem_of_startOf hs
  have halways := (h sampleState deviceWorld P (fun _ => rfl) hrun).1
  rw [hlast] at halways hstart
  have hstart' : .start 5 (.poll none pollRequest) ∈ P.log.tail := by simpa using hstart
  refine halways.1 5 none pollRequest deviceCode codeTokens rfl hstart' rfl 3 ?_
  rw [← hlast]
  exact thirdViolation_of_test hd hthird

end Rauthy
