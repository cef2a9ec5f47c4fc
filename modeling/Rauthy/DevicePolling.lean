/-
Rauthy/DevicePolling.lean

The device flow with the client of this repository (`rauthy-client/src/device_code.rs`): a device
asks for a code, and then waits for its tokens.  It sleeps for the interval that the server has
announced, polls, and goes on like this until an answer ends the loop; an answer `slow_down` would
double the time that it sleeps.

The server measures from poll to poll, and the client from an answer to the next poll, so the two
fit together, whatever the other requests do meanwhile.

Main results, in every interleaving of such devices, of users and of whatever else starts a flow:
  * `waiting_never_slowed`: no poll is ever too early, so that nobody gets a warning, and the loop
    ends after at most one poll for each interval in the lifetime of the code;
  * `waiting_gets_own_tokens`: the tokens that a loop ends with are those of its own request, and
    they are handed out once.
-/
import Rauthy.CacheTickets
import Rauthy.DeviceFlow

namespace Rauthy.RauthyClient

open Prog Pool

/-! ### The loop -/

/-- What a device keeps while it waits for its tokens. -/
structure DeviceCode where
  tokenEndpointPayload : TokenRequest
  interval : ℕ
  deriving DecidableEq

/-- `DeviceCode::request_with`, with the answer of the server: the lifetime is read as a `u16`, and
the interval as a `u8`. -/
def DeviceCode.requestWith (payload : DeviceGrantRequest) (r : DeviceCodeResponse) :
    Option DeviceCode :=
  if 0 ≤ r.expiresIn ∧ r.expiresIn < 2 ^ 16 ∧ 0 ≤ r.interval ∧ r.interval < 2 ^ 8 then
    some {
      tokenEndpointPayload := { (default : TokenRequest) with
        clientId := some payload.clientId, clientSecret := payload.clientSecret,
        deviceCode := some r.deviceCode, grantType := grantTypeDeviceCodeName }
      interval := r.interval.toNat }
  else none

/-- Where a device stands in `wait_for_token`. -/
inductive Waiter where
  /-- it has no device code yet -/
  | idle
  /-- it sleeps, since an answer came when the clock had shown `since` -/
  | sleeping (code : DeviceCode) (since : Int) (waitFor : ℕ)
  /-- its poll `t` is in flight -/
  | polling (code : DeviceCode) (since : Int) (waitFor t : ℕ)
  /-- the loop is over -/
  | ended
  deriving DecidableEq

namespace Waiter

/-- The answer of the start request. -/
def received (payload : DeviceGrantRequest) (r : DeviceCodeResponse) (now : Int) : Waiter :=
  match DeviceCode.requestWith payload r with
  | some code => sleeping code now code.interval
  | none => ended

/-- The answer of a poll.  The time to wait is a `u64`. -/
def answered (code : DeviceCode) (waitFor : ℕ) (now : Int) : DeviceOutcome → Waiter
  | .ok (.polled (.error _ .authorizationPending _)) => sleeping code now waitFor
  | .ok (.polled (.error _ .slowDown _)) => sleeping code now (waitFor * 2 % 2 ^ 64)
  | _ => ended

/-- Request `t` is posted: a poll of the device code `d` wakes its device up. -/
def posts (d : String) (t : ℕ) : DeviceReq → Waiter → Waiter
  | .poll _ p, sleeping code since waitFor =>
      if p.deviceCode = some d then polling code since waitFor t else sleeping code since waitFor
  | _, s => s

/-- Request `t`, which was `q`, is answered: the device code `d` is handed over to the device that
has started it, and the answer to a poll goes to the loop that has sent it. -/
def receives (d : String) (t : ℕ) (q : Option DeviceReq) (r : DeviceOutcome) (now : Int) :
    Waiter → Waiter
  | idle =>
      match q, r with
      | some (.start _ payload), .ok (.started (.ok resp)) =>
          if resp.deviceCode = d then received payload resp now else idle
      | _, _ => idle
  | polling code since waitFor t' =>
      if t' = t then answered code waitFor now r else polling code since waitFor t'
  | s => s

end Waiter

/-- The last reading of the clock. -/
def lastNow : DeviceLog → Int
  | [] => 0
  | .op _ .now ms :: _ => ms
  | _ :: l => lastNow l

/-- The device that waits for the tokens of the device code `d`. -/
def waiter (d : String) : DeviceLog → Waiter
  | [] => .idle
  | .start t q :: l => (waiter d l).posts d t q
  | .op _ _ _ :: l => waiter d l
  | .done t r :: l => (waiter d l).receives d t (Log.startOf t l) r (lastNow l)

/-- The polls of a device code that were sent. -/
def polls (d : String) : DeviceLog → ℕ
  | .start _ (.poll _ p) :: l => polls d l + if p.deviceCode = some d then 1 else 0
  | _ :: l => polls d l
  | [] => 0

/-- Whoever polls is in the loop of `wait_for_token`: it has slept before it polls, and it polls
with what it has kept. -/
structure WaitForToken (_ : World) (l : DeviceLog) (e : DeviceEvent) : Prop where
  posts : ∀ t ip p d, e = .start t (.poll ip p) → p.deviceCode = some d →
    ∃ code since waitFor, waiter d l = .sleeping code since waitFor ∧
      p = code.tokenEndpointPayload
  sleeps : ∀ t ms d code since waitFor, e = .op t .now ms →
    waiter d l = .polling code since waitFor t → since + waitFor * 1000 ≤ ms

/-! ### What a poll does -/

section Steps

variable (data : AppState)

/-- The poll with this request has looked up the record `c` of its device code first, and has read
the clock at `ms`. -/
structure PollFound (p : TokenRequest) (tr : List (Seen Op Op.Res)) (c : DeviceAuthCode)
    (ms : Int) : Prop where
  found : ∃ k, [⟨.cacheGet .deviceCodes k, .ok (some (.deviceAuthCode c))⟩] <:+ tr
  deviceCode : p.deviceCode = some c.deviceCode
  now : ⟨.now, ms⟩ ∈ tr

/-- A poll of the record `c` at `ms` is too early. -/
def TooEarly (c : DeviceAuthCode) (ms : Int) : Prop :=
  ms - data.deviceGrantPollInterval * 1000 + 500 < c.lastPoll

/-- What a poll writes: the record that it has found, polled now, and with more warnings only if it
is too early. -/
def PollStep (q : DeviceReq) (tr : List (Seen Op Op.Res)) (v : Seen Op Op.Res) : Prop :=
  match q, v.1 with
  | .poll _ p, .cachePut .deviceCodes _ v => ∃ c ms warnings, PollFound p tr c ms ∧
      v = .deviceAuthCode { c with lastPoll := ms, warnings } ∧
      (warnings = c.warnings ∨ TooEarly data c ms)
  | _, _ => True

/-- What the answer to a poll, or to a start request, says. -/
def PollPost (tr : List (Seen Op Op.Res)) : DeviceReq → DeviceReply → Prop
  | .poll _ p, .polled (.error _ .authorizationPending _) =>
      ∃ c ms, PollFound p tr c ms ∧ ms ≤ c.exp
  | .poll _ p, .polled (.error _ .slowDown _) => ∃ c ms, PollFound p tr c ms ∧ TooEarly data c ms
  | .poll _ p, .polled (.error _ .accessDenied _) =>
      ∃ c ms, PollFound p tr c ms ∧ TooEarly data c ms
  | .start _ _, .started (.ok r) => ⟨.getRand 64, r.deviceCode⟩ ∈ tr ∧
      Text.sliceTo r.deviceCode data.deviceGrantUserCodeLength = some r.userCode ∧
      r.interval = data.deviceGrantPollInterval ∧ r.expiresIn = data.deviceGrantCodeLifetime
  | _, _ => True

end Steps

section Sees

variable {data : AppState} {q : DeviceReq} {tr : List (Seen Op Op.Res)} {c : DeviceAuthCode}
  {ip ip' : Option String} {p : TokenRequest}
  {ms : Int}
  {cs : List (CacheName × Slot)} {payload : DeviceGrantRequest}

theorem pollStep_free {ts : List Table} (hcs : ∀ p ∈ cs, p.1 ≠ .deviceCodes) (o : Op)
    (ho : o.Touches ts cs) (tr : List (Seen Op Op.Res)) (x : o.Res) :
    PollStep data q tr ⟨o, x⟩ := by
  cases q with
  | start req payload => trivial
  | verify req payload => trivial
  | poll ip p =>
      cases o with
      | cachePut n k v =>
          cases n with
          | deviceCodes => exact absurd rfl (hcs _ ho)
          | _ => trivial
      | _ => trivial

theorem sees_free {α : Type} {prog : M ErrorResponse α} {ts : List Table} (hp : Touches ts cs prog)
    (hcs : ∀ p ∈ cs, p.1 ≠ .deviceCodes) :
    Sees Op.Possible (PollStep data q) prog (fun _ _ => True) tr :=
  sees_of_within hp fun o ho tr x _ => pollStep_free hcs o ho tr x

theorem PollFound.mono {tr' : List (Seen Op Op.Res)} (h : PollFound p tr c ms) (hsuf : tr <:+ tr') :
    PollFound p tr' c ms := by
  obtain ⟨k, hk⟩ := h.found
  exact ⟨⟨k, hk.trans hsuf⟩, h.deviceCode, hsuf.subset h.now⟩

theorem sees_pollLookup {k : String} :
    Sees Op.Possible (PollStep data (.poll ip p)) (DeviceAuthCode.find data k) (fun x tr' =>
      ∀ c, x = some c → ∃ ms : Int, ms ≤ c.exp ∧
        tr' = [⟨.now, ms⟩, ⟨.cacheGet .deviceCodes k, .ok (some (.deviceAuthCode c))⟩]) [] := by
  apply sees_bind (sees_cacheGet fun x => trivial)
  rintro x tr₁ - ⟨y, htr₁, ⟨rfl, rfl⟩ | ⟨v, c, rfl, rfl, hc⟩⟩
  · exact sees_ret fun c h => by cases h
  · rw [CacheVal.deviceAuthCode?_eq_some.mp hc] at htr₁
    apply sees_bind (sees_now fun ms => trivial)
    intro ms tr₂ _ htr₂
    split
    · apply sees_bind (sees_free (c.delete_touches data) (by simp))
      exact fun _ _ _ _ => sees_ret fun c h => by cases h
    · next hexp =>
        apply sees_ret
        rintro c' ⟨⟩
        exact ⟨ms, Int.not_lt.mp hexp, by rw [htr₂, htr₁]⟩

theorem sees_pollCheck :
    Sees Op.Possible (PollStep data (.poll ip p)) (checkPoll data c ms) (fun r tr' =>
      (∃ warnings, r.1 = { c with warnings } ∧ (warnings = c.warnings ∨ TooEarly data c ms)) ∧
      (r.2.1 ≠ .authorizationPending → TooEarly data c ms) ∧ tr <:+ tr') tr := by
  unfold checkPoll
  split
  · next hearly =>
      simp only
      split
      · apply sees_bind (Sees.suffix (sees_free
          (touches_ignoreErr (DeviceAuthCode.delete_touches _ _)) (by simp)))
        rintro _ tr₁ - ⟨hsuf, -⟩
        exact sees_ret ⟨⟨_, rfl, .inr hearly⟩, fun _ => hearly, hsuf⟩
      · exact sees_ret ⟨⟨_, rfl, .inr hearly⟩, fun _ => hearly, List.suffix_rfl⟩
  · exact sees_ret ⟨⟨c.warnings, rfl, .inl rfl⟩, fun h => absurd rfl h, List.suffix_rfl⟩

theorem sees_pollIssue {user : User} {client : Client} :
    Sees Op.Possible (PollStep data (.poll ip p)) (issueDevice data ip' c user client ms)
      (fun a tr' => PollPost data tr' (.poll ip p) (.polled a)) tr := by
  apply sees_bind (sees_free (touches_ignoreErr (c.delete_touches data)) (by simp))
  intro _ _ _ _
  have hrand : Touches [] [] (getRand 24 : M ErrorResponse String) := touches_getRand 24
  apply sees_bind (sees_free hrand (by simp))
  intro id _ _ _
  have hins (d : DeviceEntity) : Touches [.devices] []
      (attempt d.insert : M ErrorResponse (Except ErrorResponse Unit)) :=
    touches_attempt (touches_execute (by simp [DbWrite.table]))
  apply sees_bind (sees_free (hins _) (by simp))
  rintro (e | u) _ - -
  · exact sees_ret trivial
  · apply sees_bind (sees_free (touches_attempt (TokenSet.fromUser_touches _ _ _ _ _ _ _ _))
      (by simp [TokenSet.slots]))
    rintro (e | ts) _ - -
    · exact sees_ret trivial
    · exact sees_ret trivial

/-- **One poll**: what it writes, and what its answer says. -/
theorem sees_poll :
    Sees Op.Possible (PollStep data (.poll ip p)) (grantTypeDeviceCode data ip' p)
      (fun a tr' => PollPost data tr' (.poll ip p) (.polled a)) [] := by
  unfold grantTypeDeviceCode
  split
  · exact sees_ret trivial
  next deviceCode hdc =>
  apply sees_bind (F := fun r tr' => ∀ c, r = .ok (some c) → ∃ k, ∃ ms : Int, ms ≤ c.exp ∧
      tr' = [⟨.now, ms⟩, ⟨.cacheGet .deviceCodes k, .ok (some (.deviceAuthCode c))⟩])
  · apply sees_mono (sees_tried (F := fun x tr' => ∀ c, x = some c → ∃ k, ∃ ms : Int, ms ≤ c.exp ∧
      tr' = [⟨.now, ms⟩, ⟨.cacheGet .deviceCodes k, .ok (some (.deviceAuthCode c))⟩]) ?_)
    · exact fun r tr' _ h c hc => h _ hc c rfl
    · apply sees_bind sees_unwrap
      rintro key tr₁ - ⟨htr₁, -⟩
      rw [htr₁]
      exact sees_mono sees_pollLookup fun x tr₂ _ h c hc => ⟨key, h c hc⟩
  rintro (e | - | c) tr₁ - hr
  · exact sees_ret trivial
  · exact sees_ret trivial
  obtain ⟨k, ms, halive, htr₁⟩ := hr c rfl
  simp only
  split
  · exact sees_ret trivial
  split
  · exact sees_ret trivial
  next hcode =>
  split
  · exact sees_ret trivial
  have hdevice : p.deviceCode = some c.deviceCode := by rw [hdc, not_ne_iff.mp hcode]
  apply sees_bind (sees_now fun ms' => trivial)
  intro ms' tr₂ _ htr₂
  have hsuf : [⟨.cacheGet .deviceCodes k, .ok (some (.deviceAuthCode c))⟩] <:+ tr₂ :=
    ⟨[⟨.now, ms'⟩, ⟨.now, ms⟩], by rw [htr₂, htr₁]; rfl⟩
  -- the clock is read for the lookup, and again for the interval
  have hfirst : PollFound p tr₂ c ms := ⟨⟨k, hsuf⟩, hdevice, by rw [htr₂, htr₁]; simp⟩
  have hfound : PollFound p tr₂ c ms' := ⟨⟨k, hsuf⟩, hdevice, by rw [htr₂]; simp⟩
  apply sees_bind sees_pollCheck
  rintro ⟨c', error, description⟩ tr₃ - ⟨⟨warnings, hc', hw⟩, herror, hsuf₃⟩
  simp only at hc' herror ⊢
  subst hc'
  simp only
  split
  · next uid huid =>
      apply sees_bind (sees_free (touches_attempt (User.find_touches uid)) (by simp))
      rintro (e | user) _ - -
      · exact sees_ret trivial
      apply sees_bind (sees_free (touches_attempt (Client.find_touches _)) (by simp))
      rintro (e | client) _ - -
      · exact sees_ret trivial
      exact sees_pollIssue
  · have hsave : Sees Op.Possible (PollStep data (.poll ip p))
        (DeviceAuthCode.save data { c with lastPoll := ms', warnings }) (fun _ _ => True) tr₃ := by
      apply sees_bind sees_unwrap
      rintro key tr₄ - ⟨htr₄, -⟩
      rw [htr₄]
      refine sees_mono (sees_cachePut fun x => ?_) fun _ _ _ _ => trivial
      exact ⟨c, ms', warnings, hfound.mono hsuf₃, rfl, hw⟩
    apply sees_bind (Sees.suffix (sees_ignoreErr hsave))
    rintro _ tr₄ - ⟨hsuf₄, -⟩
    apply sees_ret
    have hsuf₂ : tr₂ <:+ tr₄ := hsuf₃.trans hsuf₄
    cases error with
    | authorizationPending => exact ⟨c, ms, hfirst.mono hsuf₂, halive⟩
    | slowDown => exact ⟨c, ms', hfound.mono hsuf₂, herror (by decide)⟩
    | accessDenied => exact ⟨c, ms', hfound.mono hsuf₂, herror (by decide)⟩
    | _ => trivial

/-! The start of a flow -/

theorem sees_limited {req : HttpRequest} :
    Sees Op.Possible (PollStep data (.start req payload)) (checkRateLimit data req)
      (fun r _ => ∀ r', r ≠ some (.ok r')) tr := by
  unfold checkRateLimit
  split
  · exact sees_ret fun r' h => by cases h
  · split
    · exact sees_ret fun r' h => by cases h
    · apply sees_bind (F := fun _ _ => True)
      · apply sees_bind (sees_tried (sees_cacheGet fun x => trivial))
        rintro (e | dt) _ - - <;> exact sees_ret trivial
      · rintro (- | dt) _ - -
        · apply sees_bind (sees_ignoreErr (sees_cachePut fun x => trivial))
          exact fun _ _ _ _ => sees_ret fun r' h => by cases h
        · exact sees_ret fun r' h => by cases h

theorem checkDeviceClient_ne_ok (client : Client) (payload : DeviceGrantRequest)
    (r : DeviceCodeResponse) : checkDeviceClient data client payload ≠ some (.ok r) := by
  unfold checkDeviceClient
  intro h
  split at h
  · cases h
  · split at h
    · cases h
    · split at h
      · cases h
      · split at h
        · split at h <;> cases h
        · cases h

/-- **One start request**: the device code that it hands over was drawn for it. -/
theorem sees_started {req : HttpRequest} :
    Sees Op.Possible (PollStep data (.start req payload)) (postDeviceAuth data req payload)
      (fun a tr' => PollPost data tr' (.start req payload) (.started a)) [] := by
  have herror : ∀ tr' (a : DeviceAuthAnswer), (∀ r, a ≠ .ok r) →
      PollPost data tr' (.start req payload) (.started a) := by
    intro tr' a ha
    cases a with
    | ok r => exact absurd rfl (ha r)
    | error status e d => trivial
  apply sees_bind sees_limited
  rintro (- | a) tr₁ - ha
  · apply sees_bind (sees_free (touches_attempt (Client.find_touches _)) (by simp))
    rintro (e | client) tr₂ - -
    · exact sees_ret trivial
    · simp only
      split
      · next a hcheck =>
          apply sees_ret
          apply herror
          rintro r rfl
          exact checkDeviceClient_ne_ok client payload r hcheck
      · apply sees_bind (sees_tried (F := fun (c : DeviceAuthCode) tr' =>
          (⟨.getRand 64, c.deviceCode⟩ : Seen Op Op.Res) ∈ tr') ?_)
        · rintro (e | code) tr₃ - hcode
          · exact sees_ret trivial
          · apply sees_bind sees_unwrap
            rintro userCode tr₄ - ⟨htr₄, hkey⟩
            apply sees_ret
            rw [htr₄]
            exact ⟨hcode code rfl, hkey, rfl, rfl⟩
        · apply sees_bind (sees_now fun ms => trivial)
          intro ms tr₃ _ _
          apply sees_bind (sees_getRand fun s => trivial)
          intro deviceCode tr₄ _ htr₄
          have hrand : (⟨.getRand 64, deviceCode⟩ : Seen Op Op.Res) ∈ tr₄ := by
            rw [htr₄]
            exact List.mem_cons_self
          apply sees_bind sees_unwrap
          rintro key tr₅ - ⟨htr₅, -⟩
          apply sees_bind (sees_cachePut fun x => trivial)
          intro _ tr₆ hsub₆ _
          exact sees_ret (hsub₆ _ (htr₅ ▸ hrand))
  · apply sees_ret
    apply herror
    rintro r rfl
    exact ha r rfl

/-- **What each request does**, whatever the others do. -/
theorem sees_waitReq (q : DeviceReq) :
    seenWp Op.Possible (fun tr v => DeviceStep data q tr v ∧ PollStep data q tr v) (q.prog data)
      (fun r tr' => (∀ a, r = .ok a → DevicePost data tr' q a) ∧
        ∀ a, r = .ok a → PollPost data tr' q a) [] := by
  refine seenWp_and (sees_deviceReq q) ?_
  cases q with
  | start req payload => exact sees_bind sees_started fun _ _ _ ha => sees_ret ha
  | verify req payload =>
      have hany : ∀ o : Op, (fun _ => True) o := fun _ => trivial
      apply sees_bind (sees_of_within (within_of_forall hany _) fun _ _ _ _ _ => trivial)
      exact fun _ _ _ _ => sees_ret trivial
  | poll ip p => exact sees_bind sees_poll fun _ _ _ ha => sees_ret ha

end Sees

/-! ### What holds in every state -/

section Invariant

variable (data : AppState)

/-- Request `s` has drawn the device code `d`, and handed it over to its device, which keeps
`code`. -/
structure HandedOver (s : ℕ) (payload : DeviceGrantRequest) (resp : DeviceCodeResponse) (d : String)
    (code : DeviceCode) (l : DeviceLog) : Prop where
  started : ∃ req, .start s (.start req payload) ∈ l
  answered : .done s (.ok (.started (.ok resp))) ∈ l
  drawn : .op s (.getRand 64) d ∈ l
  deviceCode : resp.deviceCode = d
  userCode : Text.sliceTo d data.deviceGrantUserCodeLength = some resp.userCode
  kept : DeviceCode.requestWith payload resp = some code
  interval : (code.interval : Int) = data.deviceGrantPollInterval
  lifetime : 0 ≤ data.deviceGrantCodeLifetime

/-- The device of the device code `d` keeps `code`. -/
def Kept (d : String) (code : DeviceCode) (l : DeviceLog) : Prop :=
  ∃ s payload resp, HandedOver data s payload resp d code l

/-- The request that has drawn the device code `d` has ended. -/
def DrawnBefore (d : String) (l : DeviceLog) : Prop :=
  ∃ s r, .done s r ∈ l ∧ .op s (.getRand 64) d ∈ l

/-- The time that `n` polls take, in seconds. -/
def spent (n : ℕ) : Int := n * data.deviceGrantPollInterval

/-- Where the device of the device code `d` stands. -/
def LoopOk (d : String) (l : DeviceLog) : Waiter → Prop
  | .idle => polls d l = 0
  | .sleeping code _ waitFor => Kept data d code l ∧ waitFor = code.interval ∧
      spent data (polls d l) ≤ data.deviceGrantCodeLifetime
  | .polling code since waitFor t => Kept data d code l ∧ waitFor = code.interval ∧
      (∃ ip p, .start t (.poll ip p) ∈ l ∧ p.deviceCode = some d) ∧
      (∀ ms : Int, .op t .now ms ∈ l → since + waitFor * 1000 ≤ ms) ∧
      ∀ n, polls d l = n + 1 → spent data n ≤ data.deviceGrantCodeLifetime
  | .ended => DrawnBefore d l ∧
      ∀ n, polls d l = n + 1 → spent data n ≤ data.deviceGrantCodeLifetime

/-- How the times of the record `c` fit to those of its device: it was last polled before the device
has fallen asleep, or by the poll in flight; and every poll so far has taken its time. -/
def Timed (c : DeviceAuthCode) (l : DeviceLog) : Waiter → Prop
  | .idle => ∃ t, ∃ ms : Int, .op t .now ms ∈ l ∧ c.exp ≤ ms + data.deviceGrantCodeLifetime * 1000
  | .sleeping _ since _ => c.lastPoll ≤ since ∧
      c.exp + spent data (polls c.deviceCode l) * 1000 ≤ since + data.deviceGrantCodeLifetime * 1000
  | .polling _ since _ t =>
      (c.lastPoll ≤ since ∨ ∃ k v x, .op t (.cachePut .deviceCodes k v) x ∈ l) ∧
      c.exp + spent data (polls c.deviceCode l) * 1000 ≤
        since + (data.deviceGrantCodeLifetime + data.deviceGrantPollInterval) * 1000
  | .ended => True

/-- What holds of every record of a device code. -/
structure Fits (l : DeviceLog) (c : DeviceAuthCode) : Prop where
  warnings : c.warnings = 0
  polled : ∃ t, ∃ ms : Int, .op t .now ms ∈ l ∧ c.lastPoll ≤ ms
  timed : Timed data c l (waiter c.deviceCode l)

/-- What holds in every state, of the log by itself. -/
structure LogInv (w : World) (l : DeviceLog) : Prop where
  starts : ∀ t q q', .start t q ∈ l → .start t q' ∈ l → q = q'
  readings : ∀ t ms, .op t .now ms ∈ l → ms ≤ lastNow l ∧ lastNow l ≤ w.clock
  issued : ∀ t n s, .op t (.getRand n) s ∈ l → s ∈ w.issued
  drawn : ∀ t t' s, .op t (.getRand 64) s ∈ l → .op t' (.getRand 64) s ∈ l → t = t'

/-- **What holds in every state**, of the records and the devices that wait. -/
structure WaitInv (w : World) (l : DeviceLog) : Prop where
  log : LogInv w l
  loops : ∀ d, LoopOk data d l (waiter d l)
  codes : ∀ k c, w.cache .deviceCodes k = some (.deviceAuthCode c) → Fits data l c
  found : ∀ t k c, .op t (.cacheGet .deviceCodes k) (.ok (some (.deviceAuthCode c))) ∈ l →
    Fits data l c
  own : ∀ t k c code since waitFor,
    [⟨.cacheGet .deviceCodes k, .ok (some (.deviceAuthCode c))⟩] <:+ seenBy t l →
    waiter c.deviceCode l = .polling code since waitFor t → c.lastPoll ≤ since
  running : ∀ t ip p d, .start t (.poll ip p) ∈ l → Log.Running t l → p.deviceCode = some d →
    ∃ code since waitFor, waiter d l = .polling code since waitFor t
  posted : ∀ t ip p d, .start t (.poll ip p) ∈ l → p.deviceCode = some d →
    ∃ code, Kept data d code l ∧ p = code.tokenEndpointPayload
  answers : ∀ t status e desc, .done t (.ok (.polled (.error status e desc))) ∈ l →
    e ≠ .slowDown ∧ e ≠ .accessDenied
  tokens : ∀ t ts ip p d, .start t (.poll ip p) ∈ l → .done t (.ok (.polled (.ok ts))) ∈ l →
    p.deviceCode = some d → waiter d l = .ended
  once : ∀ t t' ts ts' ip ip' p p' d, .start t (.poll ip p) ∈ l → .start t' (.poll ip' p') ∈ l →
    .done t (.ok (.polled (.ok ts))) ∈ l → .done t' (.ok (.polled (.ok ts'))) ∈ l →
    p.deviceCode = some d → p'.deviceCode = some d → t = t'

end Invariant

section Basics

variable {data : AppState} {w w' : World} {l : DeviceLog} {e : DeviceEvent} {d : String}
  {c : DeviceAuthCode} {code : DeviceCode} {s t : ℕ} {q : DeviceReq}
  {payload : DeviceGrantRequest}

theorem requestWith_eq_some {r : DeviceCodeResponse}
    (h : DeviceCode.requestWith payload r = some code) :
    0 ≤ r.expiresIn ∧ (code.interval : Int) = r.interval ∧
      code.tokenEndpointPayload.deviceCode = some r.deviceCode ∧
      code.tokenEndpointPayload.clientId = some payload.clientId ∧
      code.tokenEndpointPayload.clientSecret = payload.clientSecret := by
  unfold DeviceCode.requestWith at h
  split at h
  · next hr =>
      cases h
      exact ⟨hr.1, Int.toNat_of_nonneg hr.2.2.1, rfl, rfl, rfl⟩
  · cases h

theorem spent_succ (n : ℕ) : spent data (n + 1) = spent data n + data.deviceGrantPollInterval := by
  show ((n + 1 : ℕ) : Int) * _ = _
  push_cast
  rw [Int.add_mul, Int.one_mul]
  rfl

theorem HandedOver.cons {resp : DeviceCodeResponse} (h : HandedOver data s payload resp d code l) :
    HandedOver data s payload resp d code (e :: l) where
  started := by
    obtain ⟨req, hreq⟩ := h.started
    exact ⟨req, List.mem_cons_of_mem _ hreq⟩
  answered := List.mem_cons_of_mem _ h.answered
  drawn := List.mem_cons_of_mem _ h.drawn
  deviceCode := h.deviceCode
  userCode := h.userCode
  kept := h.kept
  interval := h.interval
  lifetime := h.lifetime

theorem Kept.cons (h : Kept data d code l) : Kept data d code (e :: l) := by
  obtain ⟨s, payload, resp, h⟩ := h
  exact ⟨s, payload, resp, h.cons⟩

theorem Kept.drawn (h : Kept data d code l) : DrawnBefore d l := by
  obtain ⟨s, payload, resp, h⟩ := h
  exact ⟨s, _, h.answered, h.drawn⟩

theorem Kept.interval (h : Kept data d code l) :
    (code.interval : Int) = data.deviceGrantPollInterval := by
  obtain ⟨s, payload, resp, h⟩ := h
  exact h.interval

theorem DrawnBefore.cons (h : DrawnBefore d l) : DrawnBefore d (e :: l) := by
  obtain ⟨s, r, hr, hd⟩ := h
  exact ⟨s, r, List.mem_cons_of_mem _ hr, List.mem_cons_of_mem _ hd⟩

theorem startOf_eq (hl : LogInv w l) (hq : .start t q ∈ l) : Log.startOf t l = some q := by
  obtain ⟨q', hq'⟩ := Option.isSome_iff_exists.mp (Log.startOf_isSome.mpr ⟨q, hq⟩)
  rw [hq', hl.starts t q q' hq (Log.mem_of_startOf hq')]

/-- A device code that is known to a device is not the one of a request in flight. -/
theorem LogInv.fresh (hl : LogInv w l) (hd : DrawnBefore d l) (hrun : Log.Running t l) :
    .op t (.getRand 64) d ∉ l := by
  intro ht
  obtain ⟨s, r, hr, hs⟩ := hd
  obtain rfl := hl.drawn s t d hs ht
  exact hrun.2 r hr

theorem LogInv.op {o : Op} {x : o.Res} (hl : LogInv w l) (hx : sem o w x w') :
    LogInv w' (.op t o x :: l) where
  starts t q q' h h' := by
    exact hl.starts t q q' ((List.mem_cons.mp h).resolve_left (by simp))
      ((List.mem_cons.mp h').resolve_left (by simp))
  readings t' ms h := by
    have hclock := sem_clock hx
    rcases List.mem_cons.mp h with he | h
    · cases he
      exact ⟨Int.le_refl _, by rw [(sem_now.mp hx).2]; exact Int.le_refl _⟩
    · obtain ⟨hms, hlast⟩ := hl.readings t' ms h
      cases o with
      | now =>
          obtain ⟨hle, rfl⟩ := sem_now.mp hx
          exact ⟨Int.le_trans hms (Int.le_trans hlast hle), Int.le_refl _⟩
      | _ => exact ⟨hms, Int.le_trans hlast hclock⟩
  issued t' n s h := by
    rcases List.mem_cons.mp h with he | h
    · cases he
      obtain ⟨-, -, -, rfl⟩ := sem_getRand.mp hx
      exact List.mem_cons_self
    · exact sem_issued hx (hl.issued t' n s h)
  drawn t₁ t₂ s h₁ h₂ := by
    rcases List.mem_cons.mp h₁ with he₁ | hold₁
    · cases he₁
      rcases List.mem_cons.mp h₂ with he₂ | hold₂
      · cases he₂
        rfl
      · exact absurd (hl.issued t₂ 64 s hold₂) (sem_getRand.mp hx).1
    · rcases List.mem_cons.mp h₂ with he₂ | hold₂
      · cases he₂
        exact absurd (hl.issued t₁ 64 s hold₁) (sem_getRand.mp hx).1
      · exact hl.drawn t₁ t₂ s hold₁ hold₂

theorem LogInv.start (hl : LogInv w l) (ht : Log.Fresh t l) : LogInv w (.start t q :: l) where
  starts t' q₁ q₂ h₁ h₂ := by
    rcases List.mem_cons.mp h₁ with he₁ | h₁
    · cases he₁
      rcases List.mem_cons.mp h₂ with he₂ | h₂
      · cases he₂
        rfl
      · exact absurd rfl (ht _ h₂)
    · rcases List.mem_cons.mp h₂ with he₂ | h₂
      · cases he₂
        exact absurd rfl (ht _ h₁)
      · exact hl.starts t' q₁ q₂ h₁ h₂
  readings t' ms h := hl.readings t' ms ((List.mem_cons.mp h).resolve_left (by simp))
  issued t' n s h := hl.issued t' n s ((List.mem_cons.mp h).resolve_left (by simp))
  drawn t₁ t₂ s h₁ h₂ := hl.drawn t₁ t₂ s ((List.mem_cons.mp h₁).resolve_left (by simp))
    ((List.mem_cons.mp h₂).resolve_left (by simp))

theorem LogInv.done {r : DeviceOutcome} (hl : LogInv w l) : LogInv w (.done t r :: l) where
  starts t' q₁ q₂ h₁ h₂ := hl.starts t' q₁ q₂ ((List.mem_cons.mp h₁).resolve_left (by simp))
    ((List.mem_cons.mp h₂).resolve_left (by simp))
  readings t' ms h := hl.readings t' ms ((List.mem_cons.mp h).resolve_left (by simp))
  issued t' n s h := hl.issued t' n s ((List.mem_cons.mp h).resolve_left (by simp))
  drawn t₁ t₂ s h₁ h₂ := hl.drawn t₁ t₂ s ((List.mem_cons.mp h₁).resolve_left (by simp))
    ((List.mem_cons.mp h₂).resolve_left (by simp))

/-- **The poll in flight is never too early.** -/
theorem WaitInv.not_tooEarly (hI : WaitInv data w l) {ip : Option String} {p : TokenRequest}
    {ms : Int} (hq : .start t (.poll ip p) ∈ l) (hrun : Log.Running t l)
    (hf : PollFound p (seenBy t l) c ms) : ¬ TooEarly data c ms := by
  obtain ⟨code, since, waitFor, hwait⟩ := hI.running t ip p _ hq hrun hf.deviceCode
  have hloop := hI.loops c.deviceCode
  rw [hwait] at hloop
  obtain ⟨hkeeps, rfl, -, hslept, -⟩ := hloop
  obtain ⟨k, hk⟩ := hf.found
  have hlast : c.lastPoll ≤ since := hI.own t k c code since _ hk hwait
  have hms : since + code.interval * 1000 ≤ ms := hslept ms (mem_of_seenBy hf.now)
  rw [hkeeps.interval] at hms
  unfold TooEarly
  omega

end Basics

/-! ### One step -/

section Step

variable {data : AppState} {w w' : World} {l : DeviceLog} {e : DeviceEvent} {d : String}
  {c c' : DeviceAuthCode} {s : Waiter} {t t' : ℕ} {q : DeviceReq}
  {ip : Option String} {p : TokenRequest} {r : DeviceOutcome} {code : DeviceCode} {since : Int}
  {waitFor : ℕ}

theorem LoopOk.cons (h : LoopOk data d l s) (hpolls : polls d (e :: l) = polls d l)
    (hread : ∀ code since waitFor t ms, s = .polling code since waitFor t → e = .op t .now ms →
      since + waitFor * 1000 ≤ ms) : LoopOk data d (e :: l) s := by
  cases s with
  | idle => exact hpolls.trans h
  | sleeping code since waitFor =>
      obtain ⟨hkeeps, hwait, hspent⟩ := h
      exact ⟨hkeeps.cons, hwait, by rw [hpolls]; exact hspent⟩
  | polling code since waitFor t =>
      obtain ⟨hkeeps, hwait, ⟨ip, p, hp, hd⟩, hslept, hspent⟩ := h
      refine ⟨hkeeps.cons, hwait, ⟨ip, p, List.mem_cons_of_mem _ hp, hd⟩, fun ms hms => ?_, ?_⟩
      · rcases List.mem_cons.mp hms with he | hms
        · exact hread _ _ _ _ _ rfl he.symm
        · exact hslept ms hms
      · rw [hpolls]
        exact hspent
  | ended => exact ⟨h.1.cons, by rw [hpolls]; exact h.2⟩

theorem Timed.cons (h : Timed data c l s)
    (hpolls : polls c.deviceCode (e :: l) = polls c.deviceCode l) : Timed data c (e :: l) s := by
  cases s with
  | idle =>
      obtain ⟨t, ms, hms, hexp⟩ := h
      exact ⟨t, ms, List.mem_cons_of_mem _ hms, hexp⟩
  | sleeping code since waitFor => exact ⟨h.1, by rw [hpolls]; exact h.2⟩
  | polling code since waitFor t =>
      obtain ⟨hlast | ⟨k, v, x, hput⟩, hexp⟩ := h
      · exact ⟨.inl hlast, by rw [hpolls]; exact hexp⟩
      · exact ⟨.inr ⟨k, v, x, List.mem_cons_of_mem _ hput⟩, by rw [hpolls]; exact hexp⟩
  | ended => trivial

theorem Fits.cons (h : Fits data l c) (hw : waiter c.deviceCode (e :: l) = waiter c.deviceCode l)
    (hpolls : polls c.deviceCode (e :: l) = polls c.deviceCode l) : Fits data (e :: l) c where
  warnings := h.warnings
  polled := by
    obtain ⟨t, ms, hms, hle⟩ := h.polled
    exact ⟨t, ms, List.mem_cons_of_mem _ hms, hle⟩
  timed := by
    rw [hw]
    exact h.timed.cons hpolls

theorem Fits.op {o : Op} {x : o.Res} (h : Fits data l c) : Fits data (.op t o x :: l) c :=
  h.cons rfl rfl

theorem Fits.polled_le (h : Fits data l c) (hl : LogInv w l) : c.lastPoll ≤ lastNow l := by
  obtain ⟨t, ms, hms, hle⟩ := h.polled
  exact Int.le_trans hle (hl.readings t ms hms).1

/-- A device code that no device has been told of has no device. -/
theorem WaitInv.idle (hI : WaitInv data w l) (h : ¬ DrawnBefore d l) : waiter d l = .idle := by
  have hloop := hI.loops d
  rcases hs : waiter d l with - | ⟨code, since, waitFor⟩ | ⟨code, since, waitFor, t⟩ | -
  · rfl
  · rw [hs] at hloop
    exact absurd hloop.1.drawn h
  · rw [hs] at hloop
    exact absurd hloop.1.drawn h
  · rw [hs] at hloop
    exact absurd hloop.1 h

theorem mem_of_first {v : Seen Op Op.Res} (h : [v] <:+ seenBy t l) : .op t v.1 v.2 ∈ l :=
  mem_of_seenBy (h.subset (List.mem_singleton_self v))

/-- **Every record that is written fits.** -/
theorem WaitInv.put (hI : WaitInv data w l) {k : String} {x : Except ErrorResponse Unit}
    (hq : .start t q ∈ l) (hrun : Log.Running t l) (hput : Puts data (seenBy t l) q c)
    (hstep : PollStep data q (seenBy t l) ⟨.cachePut .deviceCodes k (.deviceAuthCode c), x⟩) :
    Fits data (.op t (.cachePut .deviceCodes k (.deviceAuthCode c)) x :: l) c := by
  cases hput with
  | @created req payload client ms deviceCode hnow hrand hclient hfirst =>
      have hidle : waiter deviceCode l = .idle :=
        hI.idle fun hd => hI.log.fresh hd hrun (mem_of_seenBy hrand)
      apply Fits.op
      refine ⟨rfl, ⟨t, ms, mem_of_seenBy hnow, Int.le_refl _⟩, ?_⟩
      show Timed data _ l (waiter deviceCode l)
      rw [hidle]
      exact ⟨t, ms, mem_of_seenBy hnow, Int.le_refl _⟩
  | @polled ip p k' c₀ hfound honly hopen lastPoll warnings =>
      obtain ⟨c₁, ms, warnings', hf, hv, hw⟩ := hstep
      obtain ⟨k₁, hk₁⟩ := hf.found
      have hfits : Fits data l c₁ := hI.found t k₁ c₁ (mem_of_first hk₁)
      obtain ⟨code, since, waitFor, hwait⟩ := hI.running t ip p _ hq hrun hf.deviceCode
      rw [CacheVal.deviceAuthCode.inj hv]
      refine ⟨?_, ⟨t, ms, List.mem_cons_of_mem _ (mem_of_seenBy hf.now), Int.le_refl _⟩, ?_⟩
      · show warnings' = 0
        rw [hw.resolve_right (hI.not_tooEarly hq hrun hf)]
        exact hfits.warnings
      · have htimed := hfits.timed
        show Timed data _ _ (waiter c₁.deviceCode l)
        rw [hwait] at htimed ⊢
        exact ⟨.inr ⟨k, _, x, List.mem_cons_self⟩, htimed.2⟩
  | @accepted req payload c₀ s uid hfound haccept hsession hstate huid =>
      -- only the user changes
      obtain ⟨hwarnings, hpolled, htimed⟩ := hI.found t _ c₀ (mem_of_seenBy hfound)
      apply Fits.op
      refine ⟨hwarnings, hpolled, ?_⟩
      show Timed data { c₀ with verifiedBy := some uid } l (waiter c₀.deviceCode l)
      rcases hs : waiter c₀.deviceCode l with
        - | ⟨code, since, waitFor⟩ | ⟨code, since, waitFor, t⟩ | -
      · rw [hs] at htimed
        exact htimed
      · rw [hs] at htimed
        exact htimed
      · rw [hs] at htimed
        exact htimed
      · trivial

theorem running_of_cons (hne : ∀ q, e ≠ .start t q) (h : Log.Running t (e :: l)) :
    Log.Running t l := by
  obtain ⟨⟨q, hq⟩, hno⟩ := h
  exact ⟨⟨q, (List.mem_cons.mp hq).resolve_left fun h => hne q h.symm⟩,
    fun a ha => hno a (List.mem_cons_of_mem _ ha)⟩

/-- **One operation.** -/
theorem WaitInv.op (hI : WaitInv data w l) {o : Op} {x : o.Res} (hq : .start t q ∈ l)
    (hrun : Log.Running t l) (hx : sem o w x w') (hC : WaitForToken w l (.op t o x))
    (hstep : DeviceStep data q (seenBy t l) ⟨o, x⟩ ∧ PollStep data q (seenBy t l) ⟨o, x⟩) :
    WaitInv data w' (.op t o x :: l) where
  log := hI.log.op hx
  loops d := by
    apply (hI.loops d).cons rfl
    rintro code since waitFor t' ms hs he
    cases he
    exact hC.sleeps t ms d code since waitFor rfl hs
  codes k c hc := by
    rcases sem_cache hx hc with hold | rfl
    · exact (hI.codes k c hold).op
    · obtain ⟨⟨c', hc', hput, -⟩, hpoll⟩ := hstep
      cases hc'
      exact hI.put hq hrun hput hpoll
  found t' k c h := by
    rcases List.mem_cons.mp h with he | h
    · cases he
      rcases sem_cacheGet.mp hx with ⟨hv, -⟩ | ⟨hv, -⟩ | ⟨e, he, -⟩
      · exact (hI.codes k c (Except.ok.inj hv).symm).op
      · cases hv
      · cases he
    · exact (hI.found t' k c h).op
  own t' k c code since waitFor hf hwait := by
    by_cases htt : t' = t
    · subst htt
      rw [seenBy_op_self] at hf
      rcases List.suffix_cons_iff.mp hf with heq | hf
      · -- its first operation finds the record, so that it has put none
        obtain ⟨hv, hnil⟩ := List.cons.inj heq
        cases hv
        rcases sem_cacheGet.mp hx with ⟨hv, -⟩ | ⟨hv, -⟩ | ⟨e, he, -⟩
        · have htimed := (hI.codes k c (Except.ok.inj hv).symm).timed
          have hwait : waiter c.deviceCode l = .polling code since waitFor t' := hwait
          rw [hwait] at htimed
          obtain ⟨hlast | ⟨k', v', x', hput⟩, -⟩ := htimed
          · exact hlast
          · rw [← mem_seenBy, ← hnil] at hput
            cases hput
        · cases hv
        · cases he
      · exact hI.own t' k c code since waitFor hf hwait
    · rw [seenBy_op_of_ne htt] at hf
      exact hI.own t' k c code since waitFor hf hwait
  running t' ip p d hp hr hd :=
    hI.running t' ip p d ((List.mem_cons.mp hp).resolve_left (by simp))
      (running_of_cons (by simp) hr) hd
  posted t' ip p d hp hd := by
    obtain ⟨code, hkeeps, hpay⟩ :=
      hI.posted t' ip p d ((List.mem_cons.mp hp).resolve_left (by simp)) hd
    exact ⟨code, hkeeps.cons, hpay⟩
  answers t' status e desc h :=
    hI.answers t' status e desc ((List.mem_cons.mp h).resolve_left (by simp))
  tokens t' ts ip p d hp hd := hI.tokens t' ts ip p d ((List.mem_cons.mp hp).resolve_left (by simp))
    ((List.mem_cons.mp hd).resolve_left (by simp))
  once t₁ t₂ ts₁ ts₂ ip₁ ip₂ p₁ p₂ d h₁ h₂ hd₁ hd₂ :=
    hI.once t₁ t₂ ts₁ ts₂ ip₁ ip₂ p₁ p₂ d ((List.mem_cons.mp h₁).resolve_left (by simp))
      ((List.mem_cons.mp h₂).resolve_left (by simp)) ((List.mem_cons.mp hd₁).resolve_left (by simp))
      ((List.mem_cons.mp hd₂).resolve_left (by simp))

/-- What a new request is for the device code `d`: nothing, or the next poll of its device. -/
inductive StartCase (d : String) (t : ℕ) (q : DeviceReq) (l : DeviceLog) : Prop
  | other (hw : waiter d (.start t q :: l) = waiter d l)
      (hn : polls d (.start t q :: l) = polls d l)
      (hq : ∀ ip p, q = .poll ip p → p.deviceCode ≠ some d)
  | poll {ip : Option String} {p : TokenRequest} {code : DeviceCode} {since : Int} {waitFor : ℕ}
      (hq : q = .poll ip p) (hd : p.deviceCode = some d)
      (hs : waiter d l = .sleeping code since waitFor) (hp : p = code.tokenEndpointPayload)
      (hw : waiter d (.start t q :: l) = .polling code since waitFor t)
      (hn : polls d (.start t q :: l) = polls d l + 1)

theorem startCase (hC : WaitForToken w l (.start t q)) (d : String) : StartCase d t q l := by
  cases q with
  | start req payload => exact .other rfl rfl fun ip p h => by cases h
  | verify req payload => exact .other rfl rfl fun ip p h => by cases h
  | poll ip p =>
      by_cases hd : p.deviceCode = some d
      · obtain ⟨code, since, waitFor, hs, hp⟩ := hC.posts t ip p d rfl hd
        refine .poll rfl hd hs hp ?_ ?_
        · show Waiter.posts d t _ (waiter d l) = _
          rw [hs]
          exact if_pos hd
        · show polls d l + _ = _
          rw [if_pos hd]
      · refine .other ?_ ?_ ?_
        · show Waiter.posts d t _ (waiter d l) = _
          rcases waiter d l with - | ⟨code, since, waitFor⟩ | ⟨code, since, waitFor, t⟩ | -
          · rfl
          · exact if_neg hd
          · rfl
          · rfl
        · show polls d l + _ = _
          rw [if_neg hd]
          rfl
        · rintro ip' p' ⟨⟩
          exact hd

theorem Fits.start (h : Fits data l c) (hcase : StartCase c.deviceCode t q l) :
    Fits data (.start t q :: l) c := by
  cases hcase with
  | other hw hn hq => exact h.cons hw hn
  | @poll ip p code since waitFor hq hd hs hp hw hn =>
      refine ⟨h.warnings, ?_, ?_⟩
      · obtain ⟨t', ms, hms, hle⟩ := h.polled
        exact ⟨t', ms, List.mem_cons_of_mem _ hms, hle⟩
      · have htimed := h.timed
        rw [hs] at htimed
        obtain ⟨hlast, hexp⟩ := htimed
        rw [hw]
        refine ⟨.inl hlast, ?_⟩
        rw [hn, spent_succ]
        omega

/-- A new request leaves a device where it is, or starts the poll that it has slept for. -/
theorem LoopOk.start (hloop : LoopOk data d l (waiter d l)) (ht : Log.Fresh t l)
    (hcase : StartCase d t q l) :
    LoopOk data d (.start t q :: l) (waiter d (.start t q :: l)) := by
  cases hcase with
  | other hw hn hq =>
      rw [hw]
      exact hloop.cons hn fun _ _ _ _ _ _ h => by cases h
  | @poll ip p code since waitFor hq hd hs hp hw hn =>
      rw [hs] at hloop
      obtain ⟨hkeeps, hwait, hspent⟩ := hloop
      rw [hw]
      refine ⟨hkeeps.cons, hwait, ⟨ip, p, by rw [hq]; exact List.mem_cons_self, hd⟩, ?_, ?_⟩
      · intro ms hms
        exact absurd rfl (ht _ ((List.mem_cons.mp hms).resolve_left (by simp)))
      · intro n hn'
        rw [hn] at hn'
        rw [← Nat.succ.inj hn']
        exact hspent

/-- A device that is not asleep stays where it is. -/
theorem StartCase.keeps (hcase : StartCase d t q l)
    (hs : ∀ code since waitFor, waiter d l ≠ .sleeping code since waitFor) :
    waiter d (.start t q :: l) = waiter d l := by
  cases hcase with
  | other hw hn hq => exact hw
  | poll hq hd hsleep hp hw hn => exact absurd hsleep (hs _ _ _)

theorem StartCase.polls (hcase : StartCase d t (.poll ip p) l) (hd : p.deviceCode = some d) :
    ∃ code since waitFor, waiter d l = .sleeping code since waitFor ∧
      p = code.tokenEndpointPayload ∧
      waiter d (.start t (.poll ip p) :: l) = .polling code since waitFor t := by
  cases hcase with
  | other hw hn hq => exact absurd hd (hq ip p rfl)
  | poll hq hd' hs hp hw hn =>
      cases hq
      exact ⟨_, _, _, hs, hp, hw⟩

/-- **A new request.** -/
theorem WaitInv.start (hI : WaitInv data w l) (ht : Log.Fresh t l)
    (hC : WaitForToken w l (.start t q)) : WaitInv data w (.start t q :: l) := by
  have hcase := startCase hC
  -- what has ended was there before
  have hold : ∀ {t' ip p ts}, .start t' (.poll ip p) ∈ .start t q :: l →
      .done t' (.ok (.polled (.ok ts))) ∈ .start t q :: l →
      .start t' (.poll ip p) ∈ l ∧ .done t' (.ok (.polled (.ok ts))) ∈ l := by
    intro t' ip p ts hp hd
    have hdone := (List.mem_cons.mp hd).resolve_left (by simp)
    rcases List.mem_cons.mp hp with he | hp
    · cases he
      exact absurd rfl (ht _ hdone)
    · exact ⟨hp, hdone⟩
  exact {
    log := hI.log.start ht
    loops := fun d => (hI.loops d).start ht (hcase d)
    codes := fun k c hc => (hI.codes k c hc).start (hcase _)
    found := fun t' k c h =>
      (hI.found t' k c ((List.mem_cons.mp h).resolve_left (by simp))).start (hcase _)
    own := fun t' k c code since waitFor hf hwait => by
      rw [seenBy_start] at hf
      cases hcase c.deviceCode with
      | other hw hn hq => exact hI.own t' k c code since waitFor hf (hw.symm.trans hwait)
      | poll hq hd hs hp hw hn =>
          cases hw.symm.trans hwait
          exact absurd rfl (ht _ (mem_of_first hf))
    running := fun t' ip p d hp hr hd => by
      rcases List.mem_cons.mp hp with he | hold
      · cases he
        obtain ⟨code, since, waitFor, -, -, hw⟩ := (hcase d).polls hd
        exact ⟨code, since, waitFor, hw⟩
      · have hrun : Log.Running t' l :=
          running_of_cons (fun q' h => ht _ hold (by cases h; rfl)) hr
        obtain ⟨code, since, waitFor, hwait⟩ := hI.running t' ip p d hold hrun hd
        refine ⟨code, since, waitFor, ((hcase d).keeps fun _ _ _ hs => ?_).trans hwait⟩
        cases hwait.symm.trans hs
    posted := fun t' ip p d hp hd => by
      rcases List.mem_cons.mp hp with he | hold
      · cases he
        obtain ⟨code, since, waitFor, hs, hpay, -⟩ := (hcase d).polls hd
        have hloop := hI.loops d
        rw [hs] at hloop
        exact ⟨code, hloop.1.cons, hpay⟩
      · obtain ⟨code, hkeeps, hpay⟩ := hI.posted t' ip p d hold hd
        exact ⟨code, hkeeps.cons, hpay⟩
    answers := fun t' status e desc h =>
      hI.answers t' status e desc ((List.mem_cons.mp h).resolve_left (by simp))
    tokens := fun t' ts ip p d hp hd hdev => by
      obtain ⟨hp, hdone⟩ := hold hp hd
      have hended := hI.tokens t' ts ip p d hp hdone hdev
      refine ((hcase d).keeps fun _ _ _ hs => ?_).trans hended
      cases hended.symm.trans hs
    once := fun t₁ t₂ ts₁ ts₂ ip₁ ip₂ p₁ p₂ d h₁ h₂ hd₁ hd₂ => by
      obtain ⟨hs₁, hdone₁⟩ := hold h₁ hd₁
      obtain ⟨hs₂, hdone₂⟩ := hold h₂ hd₂
      exact hI.once t₁ t₂ ts₁ ts₂ ip₁ ip₂ p₁ p₂ d hs₁ hs₂ hdone₁ hdone₂ }

/-- What an answer is for the device code `d`: nothing, the code itself, or the end of the poll of
its device. -/
inductive DoneCase (d : String) (t : ℕ) (q : DeviceReq) (r : DeviceOutcome) (l : DeviceLog) : Prop
  | other (hw : waiter d (.done t r :: l) = waiter d l)
      (hne : ∀ code since waitFor, waiter d l ≠ .polling code since waitFor t)
  | received {req : HttpRequest} {payload : DeviceGrantRequest} {resp : DeviceCodeResponse}
      (hq : q = .start req payload) (hr : r = .ok (.started (.ok resp)))
      (hd : resp.deviceCode = d) (hidle : waiter d l = .idle)
      (hw : waiter d (.done t r :: l) = .received payload resp (lastNow l))
  | answered {code : DeviceCode} {since : Int} {waitFor : ℕ}
      (hp : waiter d l = .polling code since waitFor t)
      (hw : waiter d (.done t r :: l) = .answered code waitFor (lastNow l) r)

theorem doneCase (hl : LogInv w l) (hq : .start t q ∈ l) (d : String) :
    DoneCase d t q r l := by
  have hwait : waiter d (.done t r :: l) =
      (waiter d l).receives d t (some q) r (lastNow l) := by
    rw [← startOf_eq hl hq]
    rfl
  rcases hs : waiter d l with - | ⟨code, since, waitFor⟩ | ⟨code, since, waitFor, t'⟩ | -
  · rw [hs] at hwait
    have hother : waiter d (.done t r :: l) = .idle → DoneCase d t q r l := by
      intro h
      exact .other (h.trans hs.symm) fun _ _ _ h => by rw [hs] at h; cases h
    cases q with
    | start req payload =>
        rcases r with e | (resp | _) | _ | _
        · exact hother hwait
        · by_cases hd : resp.deviceCode = d
          · exact .received rfl rfl hd hs (hwait.trans (if_pos hd))
          · exact hother (hwait.trans (if_neg hd))
        · exact hother hwait
        · exact hother hwait
        · exact hother hwait
    | verify req payload => exact hother hwait
    | poll ip p => exact hother hwait
  · rw [hs] at hwait
    exact .other (hwait.trans hs.symm) fun _ _ _ h => by rw [hs] at h; cases h
  · rw [hs] at hwait
    by_cases htt : t' = t
    · subst htt
      exact .answered hs (hwait.trans (if_pos rfl))
    · refine .other (hwait.trans ((if_neg htt).trans hs.symm)) fun _ _ _ h => ?_
      rw [hs] at h
      cases h
      exact htt rfl
  · rw [hs] at hwait
    exact .other (hwait.trans hs.symm) fun _ _ _ h => by rw [hs] at h; cases h

/-- How the loop goes on after an answer: it sleeps again if it was told to wait, and is over
otherwise. -/
theorem answered_cases (code : DeviceCode) (waitFor : ℕ) (now : Int)
    (hslow : ∀ status desc, r ≠ .ok (.polled (.error status .slowDown desc))) :
    (∃ status desc, r = .ok (.polled (.error status .authorizationPending desc)) ∧
      Waiter.answered code waitFor now r = .sleeping code now waitFor) ∨
    Waiter.answered code waitFor now r = .ended := by
  rcases r with e | (_ | _ | (_ | ⟨status, e, desc⟩))
  · exact .inr rfl
  · exact .inr rfl
  · exact .inr rfl
  · exact .inr rfl
  · cases e with
    | authorizationPending => exact .inl ⟨status, desc, rfl, rfl⟩
    | slowDown => exact absurd rfl (hslow status desc)
    | _ => exact .inr rfl

/-- No poll is told to slow down, or that it has done so too often. -/
theorem WaitInv.never_slowed (hI : WaitInv data w l) (hq : .start t q ∈ l) (hrun : Log.Running t l)
    (hdev : ∀ a, r = .ok a → DevicePost data (seenBy t l) q a)
    (hpost : ∀ a, r = .ok a → PollPost data (seenBy t l) q a) {status : ℕ}
    {e : OAuth2ErrorTypeResponse} {desc : String} (hr : r = .ok (.polled (.error status e desc))) :
    e ≠ .slowDown ∧ e ≠ .accessDenied := by
  have hpost := hpost _ hr
  have hdev := hdev _ hr
  cases q with
  | start req payload => exact hdev.elim
  | verify req payload => exact hdev.elim
  | poll ip p =>
      constructor
      · rintro rfl
        obtain ⟨c, ms, hf, hearly⟩ := hpost
        exact hI.not_tooEarly hq hrun hf hearly
      · rintro rfl
        obtain ⟨c, ms, hf, hearly⟩ := hpost
        exact hI.not_tooEarly hq hrun hf hearly

/-- A poll that is pending has come before its code expires, after all the sleep before. -/
theorem WaitInv.pending (hI : WaitInv data w l) {ms : Int}
    (hs : waiter d l = .polling code since waitFor t) (hd : p.deviceCode = some d)
    (hf : PollFound p (seenBy t l) c ms) (hms : ms ≤ c.exp) :
    spent data (polls d l) ≤ data.deviceGrantCodeLifetime ∧
      since + data.deviceGrantPollInterval * 1000 ≤ lastNow l := by
  obtain rfl : d = c.deviceCode := Option.some.inj (hd.symm.trans hf.deviceCode)
  have hloop := hI.loops c.deviceCode
  rw [hs] at hloop
  obtain ⟨hkeeps, rfl, -, hslept, -⟩ := hloop
  have hnow : .op t .now ms ∈ l := mem_of_seenBy hf.now
  have hsleep : since + code.interval * 1000 ≤ ms := hslept ms hnow
  rw [hkeeps.interval] at hsleep
  obtain ⟨k, hk⟩ := hf.found
  have htimed := (hI.found t k c (mem_of_first hk)).timed
  rw [hs] at htimed
  obtain ⟨-, hexp⟩ := htimed
  have hlast := (hI.log.readings t ms hnow).1
  constructor
  · omega
  · omega

/-- What is known of an answer: it is something for each device code, no poll is told to slow down,
and a poll that is pending has come after all the sleep before. -/
structure DoneStep (data : AppState) (t : ℕ) (q : DeviceReq) (r : DeviceOutcome) (l : DeviceLog) :
    Prop where
  cases : ∀ d, DoneCase d t q r l
  unslowed : ∀ status desc, r ≠ .ok (.polled (.error status .slowDown desc))
  pending : ∀ {d code since waitFor status desc}, waiter d l = .polling code since waitFor t →
    r = .ok (.polled (.error status .authorizationPending desc)) →
    spent data (polls d l) ≤ data.deviceGrantCodeLifetime ∧
      since + data.deviceGrantPollInterval * 1000 ≤ lastNow l

theorem WaitInv.doneStep (hI : WaitInv data w l) (hq : .start t q ∈ l) (hrun : Log.Running t l)
    (hdev : ∀ a, r = .ok a → DevicePost data (seenBy t l) q a)
    (hpost : ∀ a, r = .ok a → PollPost data (seenBy t l) q a) : DoneStep data t q r l where
  cases := doneCase hI.log hq
  unslowed status desc hr := (hI.never_slowed hq hrun hdev hpost hr).1 rfl
  pending {d code since waitFor status desc} hs hr := by
    have hloop := hI.loops d
    rw [hs] at hloop
    obtain ⟨-, -, ⟨ip, p, hp, hd⟩, -, -⟩ := hloop
    obtain rfl := hI.log.starts t _ _ hp hq
    obtain ⟨c, ms, hf, hms⟩ := hpost _ hr
    exact hI.pending hs hd hf hms

/-- The records still fit. -/
theorem Fits.done (h : Fits data l c) (hI : WaitInv data w l) (hstep : DoneStep data t q r l) :
    Fits data (.done t r :: l) c := by
  have hpolled : ∃ t', ∃ ms : Int, .op t' .now ms ∈ .done t r :: l ∧ c.lastPoll ≤ ms := by
    obtain ⟨t', ms, hms, hle⟩ := h.polled
    exact ⟨t', ms, List.mem_cons_of_mem _ hms, hle⟩
  have htimed := h.timed
  cases hstep.cases c.deviceCode with
  | other hw hne => exact h.cons hw rfl
  | @received req payload resp hq' hr hd hidle hw =>
      refine ⟨h.warnings, hpolled, ?_⟩
      have hloop := hI.loops c.deviceCode
      rw [hidle] at htimed hloop
      obtain ⟨t', ms, hms, hexp⟩ := htimed
      rw [hw]
      unfold Waiter.received
      split
      · refine ⟨h.polled_le hI.log, ?_⟩
        have hzero : polls c.deviceCode (.done t r :: l) = 0 := hloop
        have hlast := (hI.log.readings t' ms hms).1
        rw [hzero, spent]
        omega
      · trivial
  | @answered code since waitFor hp hw =>
      refine ⟨h.warnings, hpolled, ?_⟩
      rw [hp] at htimed
      rw [hw]
      rcases answered_cases code waitFor (lastNow l) hstep.unslowed with
        ⟨status, desc, hr, hnext⟩ | hnext
      · rw [hnext]
        refine ⟨h.polled_le hI.log, ?_⟩
        have hslept := (hstep.pending hp hr).2
        have hexp := htimed.2
        show c.exp + spent data (polls c.deviceCode l) * 1000 ≤ _
        omega
      · rw [hnext]
        trivial

/-- A device keeps the code that it is answered with, or gives up at once. -/
theorem LoopOk.received {req : HttpRequest} {payload : DeviceGrantRequest}
    {resp : DeviceCodeResponse} (hq : .start t (.start req payload) ∈ l)
    (hr : r = .ok (.started (.ok resp))) (hd : resp.deviceCode = d)
    (hzero : polls d (.done t r :: l) = 0)
    (hpost : PollPost data (seenBy t l) (.start req payload) (.started (.ok resp))) :
    LoopOk data d (.done t r :: l) (.received payload resp (lastNow l)) := by
  obtain ⟨hdrawn, huser, hinterval, hlifetime⟩ := hpost
  rw [hd] at hdrawn huser
  have hdraw : .op t (.getRand 64) d ∈ .done t r :: l :=
    List.mem_cons_of_mem _ (mem_of_seenBy hdrawn)
  unfold Waiter.received
  split
  · next code hcode =>
      obtain ⟨hexp, hint, -⟩ := requestWith_eq_some hcode
      have hnonneg : 0 ≤ data.deviceGrantCodeLifetime := hlifetime ▸ hexp
      refine ⟨⟨t, payload, resp, ⟨req, List.mem_cons_of_mem _ hq⟩, ?_, hdraw, hd, huser,
        hcode, hint.trans hinterval, hnonneg⟩, rfl, ?_⟩
      · rw [hr]
        exact List.mem_cons_self
      · rw [hzero, spent]
        omega
  · exact ⟨⟨t, r, List.mem_cons_self, hdraw⟩, fun n hn => by rw [hzero] at hn; cases hn⟩

theorem LoopOk.done (hloop : LoopOk data d l (waiter d l)) (hq : .start t q ∈ l)
    (hpost : ∀ a, r = .ok a → PollPost data (seenBy t l) q a) (hstep : DoneStep data t q r l) :
    LoopOk data d (.done t r :: l) (waiter d (.done t r :: l)) := by
  cases hstep.cases d with
  | other hw hne =>
      rw [hw]
      exact hloop.cons rfl fun _ _ _ _ _ _ h => by cases h
  | @received req payload resp hq' hr hd hidle hw =>
      rw [hidle] at hloop
      rw [hw]
      subst hq'
      exact LoopOk.received hq hr hd hloop (hpost _ hr)
  | @answered code since waitFor hp hw =>
      rw [hp] at hloop
      obtain ⟨hkeeps, hwait, -, -, hspent⟩ := hloop
      rw [hw]
      rcases answered_cases code waitFor (lastNow l) hstep.unslowed with
        ⟨status, desc, hr, hnext⟩ | hnext
      · rw [hnext]
        exact ⟨hkeeps.cons, hwait, (hstep.pending hp hr).1⟩
      · rw [hnext]
        exact ⟨hkeeps.drawn.cons, hspent⟩

/-- A device that polls after an answer did so before. -/
theorem DoneStep.polling (hstep : DoneStep data t q r l)
    (hw : waiter d (.done t r :: l) = .polling code since waitFor t') :
    waiter d l = .polling code since waitFor t' := by
  cases hstep.cases d with
  | other hsame hne => exact hsame.symm.trans hw
  | received hq hr hd hidle hnext =>
      rw [hnext] at hw
      unfold Waiter.received at hw
      split at hw <;> cases hw
  | answered hp hnext =>
      rw [hnext] at hw
      rcases answered_cases _ _ _ hstep.unslowed with ⟨status, desc, -, hafter⟩ | hafter
      · rw [hafter] at hw
        cases hw
      · rw [hafter] at hw
        cases hw

/-- A device that polls goes on, unless its own poll is answered. -/
theorem DoneStep.polls_on (hstep : DoneStep data t q r l)
    (hw : waiter d l = .polling code since waitFor t') (hne : t' ≠ t) :
    waiter d (.done t r :: l) = .polling code since waitFor t' := by
  cases hstep.cases d with
  | other hsame hne => exact hsame.trans hw
  | received hq hr hd hidle hnext => cases hidle.symm.trans hw
  | answered hp hnext =>
      cases hp.symm.trans hw
      exact absurd rfl hne

/-- A device whose loop is over stays so. -/
theorem DoneStep.ended (hstep : DoneStep data t q r l) (hw : waiter d l = .ended) :
    waiter d (.done t r :: l) = .ended := by
  cases hstep.cases d with
  | other hsame hne => exact hsame.trans hw
  | received hq hr hd hidle hnext => cases hidle.symm.trans hw
  | answered hp hnext => cases hp.symm.trans hw

/-- A poll that gets tokens ends the loop of its device. -/
theorem WaitInv.ends {ts : TokenSet} (hI : WaitInv data w l) (hrun : Log.Running t l)
    (hstep : DoneStep data t q (.ok (.polled (.ok ts))) l) (hp : .start t (.poll ip p) ∈ l)
    (hd : p.deviceCode = some d) : waiter d (.done t (.ok (.polled (.ok ts))) :: l) = .ended := by
  obtain ⟨code, since, waitFor, hwait⟩ := hI.running t ip p d hp hrun hd
  cases hstep.cases d with
  | other hw hne => exact absurd hwait (hne _ _ _)
  | received hq hr hd hidle hw => cases hidle.symm.trans hwait
  | answered hp hw => exact hw

/-- After tokens for a device there is no poll of it in flight. -/
theorem WaitInv.no_later {ts : TokenSet} {ip' : Option String} {p' : TokenRequest}
    (hI : WaitInv data w l) (hrun : Log.Running t l) (hp : .start t' (.poll ip p) ∈ l)
    (hdone : .done t' (.ok (.polled (.ok ts))) ∈ l) (hd : p.deviceCode = some d)
    (hp' : .start t (.poll ip' p') ∈ l) (hd' : p'.deviceCode = some d) : False := by
  have hended := hI.tokens t' ts ip p d hp hdone hd
  obtain ⟨code, since, waitFor, hwait⟩ := hI.running t ip' p' d hp' hrun hd'
  cases hended.symm.trans hwait

/-- **An answer.** -/
theorem WaitInv.done (hI : WaitInv data w l) (hq : .start t q ∈ l) (hrun : Log.Running t l)
    (hdev : ∀ a, r = .ok a → DevicePost data (seenBy t l) q a)
    (hpost : ∀ a, r = .ok a → PollPost data (seenBy t l) q a) :
    WaitInv data w (.done t r :: l) := by
  have hstep := hI.doneStep hq hrun hdev hpost
  have hold : ∀ {t' q'}, .start t' q' ∈ .done t r :: l → .start t' q' ∈ l :=
    fun h => (List.mem_cons.mp h).resolve_left (by simp)
  exact {
    log := hI.log.done
    loops := fun d => (hI.loops d).done hq hpost hstep
    codes := fun k c hc => (hI.codes k c hc).done hI hstep
    found := fun t' k c h =>
      (hI.found t' k c ((List.mem_cons.mp h).resolve_left (by simp))).done hI hstep
    own := fun t' k c code since waitFor hf hwait => by
      rw [seenBy_done] at hf
      exact hI.own t' k c code since waitFor hf (hstep.polling hwait)
    running := fun t' ip p d hp hr hd => by
      obtain ⟨code, since, waitFor, hwait⟩ :=
        hI.running t' ip p d (hold hp) (running_of_cons (by simp) hr) hd
      refine ⟨code, since, waitFor, hstep.polls_on hwait ?_⟩
      rintro rfl
      exact hr.2 r List.mem_cons_self
    posted := fun t' ip p d hp hd => by
      obtain ⟨code, hkeeps, hpay⟩ := hI.posted t' ip p d (hold hp) hd
      exact ⟨code, hkeeps.cons, hpay⟩
    answers := fun t' status e desc h => by
      rcases List.mem_cons.mp h with he | h
      · cases he
        exact hI.never_slowed hq hrun hdev hpost rfl
      · exact hI.answers t' status e desc h
    tokens := fun t' ts ip p d hp hd hdevice => by
      rcases List.mem_cons.mp hd with he | hd
      · cases he
        exact hI.ends hrun hstep (hold hp) hdevice
      · exact hstep.ended (hI.tokens t' ts ip p d (hold hp) hd hdevice)
    once := fun t₁ t₂ ts₁ ts₂ ip₁ ip₂ p₁ p₂ d h₁ h₂ hd₁ hd₂ hc₁ hc₂ => by
      rcases List.mem_cons.mp hd₁ with he₁ | hold₁
      · cases he₁
        rcases List.mem_cons.mp hd₂ with he₂ | hold₂
        · cases he₂
          rfl
        · exact (hI.no_later hrun (hold h₂) hold₂ hc₂ (hold h₁) hc₁).elim
      · rcases List.mem_cons.mp hd₂ with he₂ | hold₂
        · cases he₂
          exact (hI.no_later hrun (hold h₁) hold₁ hc₁ (hold h₂) hc₂).elim
        · exact hI.once t₁ t₂ ts₁ ts₂ ip₁ ip₂ p₁ p₂ d (hold h₁) (hold h₂) hold₁ hold₂ hc₁ hc₂ }

end Step

/-! ### Runs -/

section Runs

variable {data : AppState} {w₀ : World} {P : DevicePool}

theorem WaitInv.init (hw : Keyed w₀) : WaitInv data w₀ [] where
  log := ⟨by simp, by simp, by simp, by simp⟩
  loops d := rfl
  codes k c h := by
    rw [hw.codes k] at h
    cases h
  found := by simp
  own t k c code since waitFor h := by
    have hnil := List.suffix_nil.mp h
    cases hnil
  running := by simp
  posted := by simp
  answers := by simp
  tokens := by simp
  once := by simp

/-- **The invariant of every run.** -/
theorem waitInv_of_run (hw : Keyed w₀)
    (h : Run (DeviceReq.prog data) sem WaitForToken (Pool.init w₀) P) :
    WaitInv data P.world P.log :=
  (Run.inv_of_seen (A := fun _ => Op.Possible)
    (G := fun q tr v => DeviceStep data q tr v ∧ PollStep data q tr v)
    (F := fun q r tr => (∀ a, r = .ok a → DevicePost data tr q a) ∧
      ∀ a, r = .ok a → PollPost data tr q a) (I := WaitInv data)
    (fun q => sees_waitReq q) (fun w _ _ _ _ _ w' _ _ hx _ => ⟨w, w', hx⟩) (.init hw)
    (fun _ _ _ _ hI ht hC => hI.start ht hC)
    (fun _ _ _ _ _ _ _ hI hq hrun hx hC hstep => hI.op hq hrun hx hC hstep)
    (fun _ _ _ _ _ hI hq hrun _ hpost => hI.done hq hrun hpost.1 hpost.2) h).1

/-- **A device that waits is never too early.**  In every interleaving no poll is told to slow down,
no record has a warning, and every device sleeps as long as the server has announced; so a device
polls at most once for each interval in the lifetime of its code, and once more. -/
theorem waiting_never_slowed (hw : Keyed w₀)
    (h : Run (DeviceReq.prog data) sem WaitForToken (Pool.init w₀) P) :
    (∀ t status e desc, .done t (.ok (.polled (.error status e desc))) ∈ P.log →
      e ≠ .slowDown ∧ e ≠ .accessDenied) ∧
    (∀ k c, P.world.cache .deviceCodes k = some (.deviceAuthCode c) → c.warnings = 0) ∧
    (∀ d code since waitFor, waiter d P.log = .sleeping code since waitFor →
      (waitFor : Int) = data.deviceGrantPollInterval) ∧
    ∀ d n, polls d P.log = n + 1 →
      n * data.deviceGrantPollInterval ≤ data.deviceGrantCodeLifetime := by
  have hI := waitInv_of_run hw h
  refine ⟨hI.answers, fun k c hc => (hI.codes k c hc).warnings,
    fun d code since waitFor hs => ?_, fun d n hn => ?_⟩
  · have hloop := hI.loops d
    rw [hs] at hloop
    rw [hloop.2.1]
    exact hloop.1.interval
  · have hloop := hI.loops d
    show spent data n ≤ _
    rcases hs : waiter d P.log with - | ⟨code, since, waitFor⟩ | ⟨code, since, waitFor, t⟩ | -
    · rw [hs] at hloop
      rw [hloop] at hn
      cases hn
    · rw [hs] at hloop
      obtain ⟨hkeeps, -, hspent⟩ := hloop
      rw [hn, spent_succ, ← hkeeps.interval] at hspent
      omega
    · rw [hs] at hloop
      exact hloop.2.2.2.2 n hn
    · rw [hs] at hloop
      exact hloop.2 n hn

/-- What a device that waits is promised of its tokens: they are for the request that it has
started, and for a user who has accepted the very user code that it shows. -/
structure OwnTokens (data : AppState) (l : DeviceLog) (p : TokenRequest) (ts : TokenSet) :
    Prop where
  own : ∃ s payload resp d code uid, HandedOver data s payload resp d code l ∧
    p = code.tokenEndpointPayload ∧ waiter d l = .ended ∧ AcceptedBy uid resp.userCode d l ∧
    ∃ kp, ∃ claims : JWTClaims JwtAccessClaims, ∃ client : Client,
      data.signJwt kp (.access claims) = .ok ts.accessToken ∧
      claims.subject = some uid ∧ claims.custom.azp = payload.clientId ∧
      client.id = payload.clientId ∧ claims.custom.scope =
        payload.scope.getD (Text.replaceChar ',' ' ' client.defaultScopes)

/-- **A device that waits gets its own tokens, once.**  In every interleaving the tokens that a poll
returns are for the client, the scope and the user code of the device that has sent it, its loop is
over, and no other poll of its device code has returned tokens. -/
theorem waiting_gets_own_tokens (hw : Keyed w₀)
    (h : Run (DeviceReq.prog data) sem WaitForToken (Pool.init w₀) P) {t : ℕ} {ip : Option String}
    {p : TokenRequest} {ts : TokenSet} (hstart : .start t (.poll ip p) ∈ P.log)
    (hdone : .done t (.ok (.polled (.ok ts))) ∈ P.log) :
    OwnTokens data P.log p ts ∧ ∀ t' ip' p' ts', .start t' (.poll ip' p') ∈ P.log →
      .done t' (.ok (.polled (.ok ts'))) ∈ P.log → p'.deviceCode = p.deviceCode → t' = t := by
  have hI := waitInv_of_run hw h
  have hD := deviceInv_of_run hw h
  obtain ⟨q, hq, hpost⟩ := hD.answers t _ hdone
  obtain rfl := hI.log.starts t _ _ hstart hq
  obtain ⟨k, c, uid, ms, hr⟩ := hpost
  obtain ⟨tr, htr⟩ := hr.lookup
  have hfound : FoundCode k c (seenBy t P.log) := by
    rw [FoundCode, ← htr]
    simp
  obtain ⟨⟨payload₀, ms₀, hs⟩, haccepted⟩ := hD.found hfound
  obtain ⟨code, ⟨s, payload, resp, hover⟩, hpay⟩ := hI.posted t ip p _ hstart hr.deviceCode
  -- the record was started by the request that has handed the code over
  obtain ⟨s₀, req₀, hs₀, -, hrand⟩ := hs.request
  obtain rfl := hI.log.drawn s₀ s _ hrand hover.drawn
  obtain ⟨req, hreq⟩ := hover.started
  have heq := hI.log.starts s₀ _ _ hs₀ hreq
  cases heq
  have hkey : k = resp.userCode := Option.some.inj (hs.key.symm.trans hover.userCode)
  obtain ⟨user, client, did, huser, hclient, hfor⟩ := hr.tokens
  obtain ⟨kp, claims, hsign, hsub, hazp, hscope, -, -⟩ := hfor.access
  have hid : client.id = payload₀.clientId := (hD.clientOf hclient).trans hs.client
  refine ⟨⟨s₀, payload₀, resp, c.deviceCode, code, uid, hover, hpay,
    hI.tokens t ts ip p _ hstart hdone hr.deviceCode, hkey ▸ haccepted uid hr.verified, kp, claims,
    client, hsign, ?_, hazp.trans hid, hid, ?_⟩, ?_⟩
  · rw [hsub, hD.userOf huser]
  · rw [hscope, hs.scope]
  · intro t' ip' p' ts' hstart' hdone' hdevice
    exact hI.once t' t ts' ts ip' ip p' p c.deviceCode hstart' hstart hdone' hdone
      (hdevice.trans hr.deviceCode) hr.deviceCode

end Runs

/-! ### Alice's television waits -/

theorem mem_of_polling {d : String} {l : DeviceLog} {code : DeviceCode} {since : Int}
    {waitFor t : ℕ} (h : waiter d l = .polling code since waitFor t) :
    ∃ ip p, .start t (.poll ip p) ∈ l ∧ p.deviceCode = some d := by
  have hcons : ∀ {e : DeviceEvent} {l : DeviceLog},
      (∃ ip p, .start t (.poll ip p) ∈ l ∧ p.deviceCode = some d) →
      ∃ ip p, .start t (.poll ip p) ∈ e :: l ∧ p.deviceCode = some d :=
    fun ⟨ip, p, hp, hd⟩ => ⟨ip, p, List.mem_cons_of_mem _ hp, hd⟩
  induction l generalizing code since waitFor with
  | nil => cases h
  | cons e l ih =>
      cases e with
      | op t' o x => exact hcons (ih h)
      | start t' q =>
          have h : (waiter d l).posts d t' q = .polling code since waitFor t := h
          unfold Waiter.posts at h
          split at h
          · split at h
            · next hd =>
                cases h
                exact ⟨_, _, List.mem_cons_self, hd⟩
            · cases h
          · exact hcons (ih h)
      | done t' r =>
          have h : (waiter d l).receives d t' _ r _ = .polling code since waitFor t := h
          unfold Waiter.receives at h
          split at h
          · split at h
            · split at h
              · unfold Waiter.received at h
                split at h <;> cases h
              · cases h
            · cases h
          · next code' since' waitFor' t'' hs =>
              split at h
              · unfold Waiter.answered at h
                split at h <;> cases h
              · cases h
                exact hcons (ih hs)
          · exact hcons (ih h)

/-- Whether the device can send this poll. -/
def Waiter.mayPost (p : TokenRequest) : Waiter → Bool
  | sleeping code _ _ => decide (p = code.tokenEndpointPayload)
  | _ => false

/-- Whether its poll can be served at `ms`. -/
def Waiter.mayRead (ms : Int) : Waiter → Bool
  | polling _ since waitFor _ => decide (since + waitFor * 1000 ≤ ms)
  | _ => true

/-- `WaitForToken`, for the events of a schedule. -/
def waitsForToken (l : DeviceLog) : DeviceEvent → Bool
  | .start _ (.poll _ p) => p.deviceCode.all fun d => (waiter d l).mayPost p
  | .op t .now ms => l.all fun
      | .start t' (.poll _ p) =>
          decide (t' ≠ t) || p.deviceCode.all fun d => (waiter d l).mayRead ms
      | _ => true
  | _ => true

theorem waitForToken_of_check {w : World} {l : DeviceLog} {e : DeviceEvent}
    (h : waitsForToken l e = true) : WaitForToken w l e where
  posts t ip p d he hd := by
    subst he
    have h : p.deviceCode.all (fun d => (waiter d l).mayPost p) = true := h
    rw [hd] at h
    have h : (waiter d l).mayPost p = true := h
    rcases hs : waiter d l with - | ⟨code, since, waitFor⟩ | ⟨code, since, waitFor, t⟩ | -
    · rw [hs] at h
      cases h
    · rw [hs] at h
      exact ⟨code, since, waitFor, rfl, of_decide_eq_true h⟩
    · rw [hs] at h
      cases h
    · rw [hs] at h
      cases h
  sleeps t ms d code since waitFor he hs := by
    subst he
    obtain ⟨ip, p, hp, hd⟩ := mem_of_polling hs
    have h : (decide (t ≠ t) || p.deviceCode.all fun d => (waiter d l).mayRead ms) = true :=
      List.all_eq_true.mp h _ hp
    rw [hd, Bool.or_eq_true, decide_eq_true_eq] at h
    have h : (waiter d l).mayRead ms = true := h.resolve_left fun hne => hne rfl
    rw [hs] at h
    exact of_decide_eq_true h

/-- A poll of a code that nobody has accepted yet. -/
def pendingMoves (t : ℕ) (ms : Int) : List (Move DeviceReq Choice) :=
  lookupMoves t ms ++ [.op t .ok, .done t]

/-- The television polls twice before anybody looks at it. -/
theorem waiting_never_slowed_alice : ∃ P : DevicePool,
    Run (DeviceReq.prog sampleState) sem WaitForToken (Pool.init deviceWorld) P ∧
    polls deviceCode P.log = 2 ∧ (1 : ℕ) * sampleState.deviceGrantPollInterval ≤ 300 ∧
    ∀ k c, P.world.cache .deviceCodes k = some (.deviceAuthCode c) → c.warnings = 0 := by
  obtain ⟨P, hrun, hlog⟩ := exists_run_of_moves (C := WaitForToken)
    (DeviceReq.prog sampleState) Op.run (fun _ l e => waitsForToken l e) deviceWorld
    (startMoves 0 ++ pendingMoves 1 105000 ++ pendingMoves 2 110000)
    (fun P => decide (polls deviceCode P.log = 2)) (by decide +kernel)
    (fun _ _ _ h => waitForToken_of_check h)
  have hpolls := of_decide_eq_true hlog
  obtain ⟨-, hwarnings, -, hn⟩ := waiting_never_slowed keyed_deviceWorld hrun
  exact ⟨P, hrun, hpolls, hn deviceCode 1 hpolls, hwarnings⟩

/-- Alice accepts the code before the first poll. -/
theorem waiting_gets_own_tokens_alice : ∃ (P : DevicePool) (ts : TokenSet),
    Run (DeviceReq.prog sampleState) sem WaitForToken (Pool.init deviceWorld) P ∧
    .done 2 (.ok (.polled (.ok ts))) ∈ P.log ∧ OwnTokens sampleState P.log pollRequest ts := by
  obtain ⟨P, hrun, hlog⟩ := exists_run_of_moves (C := WaitForToken)
    (DeviceReq.prog sampleState) Op.run (fun _ l e => waitsForToken l e) deviceWorld
    (startMoves 0 ++ decideMoves 1 .accept ++ [.op 1 .ok, .done 1] ++ lookupMoves 2 106000 ++
      issueMoves 2 106000 "abcdefghijklmnopqrstuvwx")
    (fun P => decide (Log.startOf 2 P.log = some (.poll none pollRequest) ∧
      Log.doneOf 2 P.log = some (.ok (.polled (.ok codeTokens)))))
    (by decide +kernel) (fun _ _ _ h => waitForToken_of_check h)
  obtain ⟨hs, hd⟩ := of_decide_eq_true hlog
  exact ⟨P, codeTokens, hrun, Log.mem_of_doneOf hd,
    (waiting_gets_own_tokens keyed_deviceWorld hrun (Log.mem_of_startOf hs)
      (Log.mem_of_doneOf hd)).1⟩

end Rauthy.RauthyClient
