/-
Rauthy/Notices.lean

The tasks in the background that tell somebody something, and are to tell it once: the health
watcher (`rauthy-models/src/events/health_watch.rs`), the checker of passwords that expire soon, and
the checker for new versions (both in `rauthy-main/src/schedulers.rs`).

Main results:
  * `health_announced`: what the health watcher sends, for all that it can read.  The first state
    that it knows is announced as healthy, whatever it is;
  * `expiry_warned`: every user is warned once in exactly those schedules in which the runs are 24
    hours apart.  At the shorter and the longer day of a local time some are not;
  * `versions_announced`: a newer version is announced when it differs from the one announced
    before, and the row is the release whose write was the last to be carried out.
-/
import Mathlib.Data.List.Destutter
import Rauthy.EventRouter
import Rauthy.Users

namespace Rauthy

/-- An event of these tasks.  Its level is configured; it has no IP and no number. -/
structure Notice where
  typ : EventType
  text : Option String
  deriving DecidableEq

namespace Notice

def rauthyHealthy (host : String) : Notice :=
  ⟨.rauthyHealthy, some ("Rauthy is healthy now on host " ++ host)⟩

def rauthyUnhealthyCache (host : String) : Notice :=
  ⟨.rauthyUnhealthy, some ("The HA Cache layer is unhealthy on host " ++ host)⟩

def rauthyUnhealthyDb : Notice :=
  ⟨.rauthyUnhealthy, some "The database connection is unhealthy"⟩

def newRauthyVersion (versionUrl : String) : Notice := ⟨.newRauthyVersion, some versionUrl⟩

end Notice

/-! ### The health watcher -/

inductive QuorumHealth where
  | good
  | degraded
  | bad
  deriving DecidableEq

/-- What is read in one round: the health of the cache, which is none without high availability,
and whether the database answers; and both again ten seconds later, if they are needed. -/
structure HealthReads where
  cache : Option QuorumHealth
  cacheAgain : Option QuorumHealth
  db : Bool
  dbAgain : Bool

structure HealthWatch where
  wasHealthyAfterStartup : Bool
  lastState : Bool
  deriving DecidableEq

namespace HealthWatch

variable (haMode : Bool) (host : String)

def init : HealthWatch := ⟨false, false⟩

/-- `cache_healthy`, with the event that is sent; `none` if the second read is unwrapped in vain. -/
def cacheHealthy (st : HealthWatch) (r : HealthReads) : Option (Bool × List Notice) :=
  match r.cache with
  | none => some (!haMode, [])
  | some health =>
      if health ≠ .good then
        match r.cacheAgain with
        | none => none
        | some again =>
            if again ≠ .good ∧ st.wasHealthyAfterStartup = true then
              some (false, [.rauthyUnhealthyCache host])
            else some (true, [])
      else some (true, [])

/-- `db_healthy`, with the event that is sent -/
def dbHealthy (st : HealthWatch) (r : HealthReads) : Bool × List Notice :=
  if r.db = false then
    if r.dbAgain = false ∧ st.wasHealthyAfterStartup = true then (false, [.rauthyUnhealthyDb])
    else (true, [])
  else (true, [])

/-- One round of the loop. -/
def round (st : HealthWatch) (r : HealthReads) : Option (HealthWatch × List Notice) :=
  match cacheHealthy haMode host st r with
  | none => none
  | some (cacheOk, cacheNotices) =>
      let (dbOk, dbNotices) := dbHealthy st r
      let isGoodNow := dbOk && cacheOk
      let st' : HealthWatch :=
        { wasHealthyAfterStartup := st.wasHealthyAfterStartup || isGoodNow, lastState := isGoodNow }
      let notices :=
        if isGoodNow = true ∧ isGoodNow ≠ st.lastState then [Notice.rauthyHealthy host] else []
      some (st', cacheNotices ++ dbNotices ++ notices)

/-- `watch_health`: all events that are sent, until the task panics. -/
def watchHealth : HealthWatch → List HealthReads → List Notice
  | _, [] => []
  | st, r :: rs =>
      match round haMode host st r with
      | none => []
      | some (st', notices) => notices ++ watchHealth st' rs

end HealthWatch

/-! What is to be sent -/

namespace HealthReads

/-- The cache is not good, and then it has no state any more: the task panics. -/
def lost (r : HealthReads) : Bool := r.cache.any (· ≠ .good) && r.cacheAgain.isNone

/-- The state of the cache is known. -/
def known (haMode : Bool) (r : HealthReads) : Bool := r.cache.isSome || !haMode

/-- The cache is not good, and it is not ten seconds later. -/
def cacheDown (r : HealthReads) : Bool :=
  r.cache.any (· ≠ .good) && r.cacheAgain.any (· ≠ .good)

def dbDown (r : HealthReads) : Bool := !r.db && !r.dbAgain

def sound (haMode : Bool) (r : HealthReads) : Bool := r.known haMode && !r.cacheDown && !r.dbDown

/-- The events about what is down. -/
def alerts (host : String) (r : HealthReads) : List Notice :=
  (if r.cacheDown then [.rauthyUnhealthyCache host] else []) ++
    if r.dbDown then [.rauthyUnhealthyDb] else []

end HealthReads

/-- The events of the following rounds, of which the one before was up or not: all that is down, and
that everything is well again. -/
def announcements (haMode : Bool) (host : String) : Bool → List HealthReads → List Notice
  | _, [] => []
  | up, r :: rs =>
      r.alerts host ++ (if r.sound haMode && !up then [Notice.rauthyHealthy host] else []) ++
        announcements haMode host (r.sound haMode) rs

/-- The events from the start: nothing as long as the state of the cache is unknown, then that
everything is well, and after this what the reads say, until the task panics. -/
def expectedNotices (haMode : Bool) (host : String) (rs : List HealthReads) : List Notice :=
  match (rs.takeWhile fun r => !r.lost).dropWhile fun r => !r.known haMode with
  | [] => []
  | _ :: rs => .rauthyHealthy host :: announcements haMode host true rs

section HealthWatch

variable {haMode : Bool} {host : String} {r : HealthReads} {rs : List HealthReads}

theorem round_lost {st : HealthWatch} (hr : r.lost = true) :
    HealthWatch.round haMode host st r = none := by
  obtain ⟨cache, again, db, dbAgain⟩ := r
  cases cache with
  | none => cases hr
  | some c =>
      cases again with
      | none =>
          cases c with
          | good => cases hr
          | degraded => rfl
          | bad => rfl
      | some a => cases c <;> cases hr

theorem round_started {up : Bool} (hr : r.lost = false) :
    HealthWatch.round haMode host ⟨true, up⟩ r = some (⟨true, r.sound haMode⟩,
      r.alerts host ++ if r.sound haMode && !up then [Notice.rauthyHealthy host] else []) := by
  obtain ⟨cache, again, db, dbAgain⟩ := r
  cases cache with
  | none => cases haMode <;> cases db <;> cases dbAgain <;> cases up <;> rfl
  | some c =>
      cases again with
      | none =>
          -- the second read is not needed
          cases c with
          | good => cases db <;> cases dbAgain <;> cases up <;> rfl
          | degraded => cases hr
          | bad => cases hr
      | some a => cases c <;> cases a <;> cases db <;> cases dbAgain <;> cases up <;> rfl

theorem round_unknown (hr : r.known haMode = false) :
    HealthWatch.round haMode host .init r = some (.init, []) := by
  obtain ⟨cache, again, db, dbAgain⟩ := r
  cases cache with
  | some c => cases hr
  | none =>
      cases haMode with
      | false => cases hr
      | true => cases db <;> cases dbAgain <;> rfl

/-- The first state that is known counts as a healthy one. -/
theorem round_known (hs : r.lost = false) (hr : r.known haMode = true) :
    HealthWatch.round haMode host .init r = some (⟨true, true⟩, [.rauthyHealthy host]) := by
  obtain ⟨cache, again, db, dbAgain⟩ := r
  cases cache with
  | none =>
      cases haMode with
      | true => cases hr
      | false => cases db <;> cases dbAgain <;> rfl
  | some c =>
      cases again with
      | none =>
          cases c with
          | good => cases db <;> cases dbAgain <;> rfl
          | degraded => cases hs
          | bad => cases hs
      | some a => cases c <;> cases a <;> cases db <;> cases dbAgain <;> rfl

theorem watchHealth_started (up : Bool) :
    HealthWatch.watchHealth haMode host ⟨true, up⟩ rs =
      announcements haMode host up (rs.takeWhile fun r => !r.lost) := by
  induction rs generalizing up with
  | nil => rfl
  | cons r rs ih =>
      rw [HealthWatch.watchHealth]
      cases hl : r.lost with
      | true =>
          rw [round_lost hl, List.takeWhile_cons_of_neg (by rw [hl]; exact Bool.false_ne_true)]
          rfl
      | false =>
          rw [round_started hl, List.takeWhile_cons_of_pos (by rw [hl]; rfl)]
          show _ ++ HealthWatch.watchHealth haMode host ⟨true, r.sound haMode⟩ rs = _
          rw [ih, announcements]

theorem expectedNotices_lost (hl : r.lost = true) : expectedNotices haMode host (r :: rs) = [] := by
  rw [expectedNotices, List.takeWhile_cons_of_neg (by rw [hl]; exact Bool.false_ne_true)]
  rfl

theorem expectedNotices_unknown (hl : r.lost = false) (hr : r.known haMode = false) :
    expectedNotices haMode host (r :: rs) = expectedNotices haMode host rs := by
  rw [expectedNotices, List.takeWhile_cons_of_pos (by rw [hl]; rfl),
    List.dropWhile_cons_of_pos (by rw [hr]; rfl), expectedNotices]

theorem expectedNotices_known (hl : r.lost = false) (hr : r.known haMode = true) :
    expectedNotices haMode host (r :: rs) =
      .rauthyHealthy host :: announcements haMode host true (rs.takeWhile fun r => !r.lost) := by
  rw [expectedNotices, List.takeWhile_cons_of_pos (by rw [hl]; rfl),
    List.dropWhile_cons_of_neg (by rw [hr]; exact Bool.false_ne_true)]

theorem watchHealth_eq :
    HealthWatch.watchHealth haMode host .init rs = expectedNotices haMode host rs := by
  induction rs with
  | nil => rfl
  | cons r rs ih =>
      rw [HealthWatch.watchHealth]
      cases hl : r.lost with
      | true =>
          rw [round_lost hl, expectedNotices_lost hl]
      | false =>
          cases hk : r.known haMode with
          | false =>
              rw [round_unknown hk, expectedNotices_unknown hl hk]
              exact ih
          | true =>
              rw [round_known hl hk, expectedNotices_known hl hk]
              show .rauthyHealthy host :: HealthWatch.watchHealth haMode host ⟨true, true⟩ rs = _
              rw [watchHealth_started]

/-- A healthy event is not followed by another one. -/
def Alternates : Notice → Notice → Prop := fun a b =>
  a.typ = .rauthyHealthy → b.typ ≠ .rauthyHealthy

/-- After a last event `x`, which was not a healthy one if something was down. -/
theorem isChain_announcements (hrs : ∀ r ∈ rs, r.known haMode = true) {up : Bool} {x : Notice}
    (hx : up = false → x.typ ≠ .rauthyHealthy) :
    (x :: announcements haMode host up rs).IsChain Alternates := by
  induction rs generalizing up x with
  | nil => exact List.isChain_singleton _
  | cons r rs ih =>
      obtain ⟨hr, hrs⟩ := List.forall_mem_cons.mp hrs
      have hne : EventType.rauthyUnhealthy ≠ .rauthyHealthy := EventType.noConfusion
      rw [announcements, HealthReads.alerts, HealthReads.sound, hr]
      cases r.cacheDown with
      | true =>
          apply List.isChain_cons_cons.mpr
          apply And.intro fun _ => hne
          cases r.dbDown with
          | true =>
              apply List.isChain_cons_cons.mpr
              apply And.intro fun _ => hne
              exact ih hrs fun _ => hne
          | false => exact ih hrs fun _ => hne
      | false =>
          cases r.dbDown with
          | true =>
              apply List.isChain_cons_cons.mpr
              apply And.intro fun _ => hne
              exact ih hrs fun _ => hne
          | false =>
              cases up with
              | true => exact ih hrs fun h => absurd h.symm Bool.false_ne_true
              | false =>
                  -- the only healthy event, and what was sent before it is not one
                  apply List.isChain_cons_cons.mpr
                  apply And.intro fun h => absurd h (hx rfl)
                  exact ih hrs fun h => absurd h.symm Bool.false_ne_true

theorem isChain_expectedNotices
    (hrs : rs.Pairwise fun a b => a.known haMode = true → b.known haMode = true) :
    (expectedNotices haMode host rs).IsChain Alternates := by
  induction rs with
  | nil => exact List.isChain_nil
  | cons r rs ih =>
      obtain ⟨hr, hrs⟩ := List.pairwise_cons.mp hrs
      cases hl : r.lost with
      | true =>
          rw [expectedNotices_lost hl]
          exact List.isChain_nil
      | false =>
          cases hk : r.known haMode with
          | false =>
              rw [expectedNotices_unknown hl hk]
              exact ih hrs
          | true =>
              rw [expectedNotices_known hl hk]
              apply isChain_announcements fun r' hr' => hr r' (List.takeWhile_subset _ hr') hk
              intro h
              exact absurd h.symm Bool.false_ne_true

/-- **What the health watcher sends**, whatever it reads and for how long it runs.  If the state of
the cache stays known, there is an unhealthy event between two healthy ones. -/
theorem health_announced :
    HealthWatch.watchHealth haMode host .init rs = expectedNotices haMode host rs ∧
      ((rs.Pairwise fun a b => a.known haMode = true → b.known haMode = true) →
        (HealthWatch.watchHealth haMode host .init rs).IsChain Alternates) := by
  rw [watchHealth_eq]
  exact ⟨rfl, isChain_expectedNotices⟩

/-- The reads of a database that is down from the start, comes up and goes down again for two
rounds. -/
def downUpDown : List HealthReads :=
  [⟨some .good, some .good, false, false⟩, ⟨some .good, some .good, true, true⟩,
    ⟨some .good, some .good, false, false⟩, ⟨some .good, some .good, false, false⟩]

/-- The outage at the start is announced as healthy; the second one is told in every round. -/
theorem health_announced_down :
    HealthWatch.watchHealth true "host" .init downUpDown =
        [.rauthyHealthy "host", .rauthyUnhealthyDb, .rauthyUnhealthyDb] ∧
      (HealthWatch.watchHealth true "host" .init downUpDown).IsChain Alternates := by
  obtain ⟨hsent, hchain⟩ := @health_announced true "host" downUpDown
  apply And.intro (hsent.trans rfl)
  apply hchain
  decide

end HealthWatch

/-! ### Passwords that expire soon -/

/-- What one run of the checker reads. -/
structure ExpiryTick where
  now : Int
  isHaLeader : Option Bool
  users : Except ErrorResponse (List User)

namespace ExpiryTick

/-- The users between nine and ten days before the expiry, "to only warn once" -/
def usersToNotify (now : Int) (users : List User) : List User :=
  users.filter fun user => user.passwordExpires.any fun exp =>
    exp ≤ now + 10 * 86400 && exp > now + 9 * 86400

/-- Those who get an e-mail from `send_pwd_reset_info` in one run -/
def notified (k : ExpiryTick) : List User :=
  if k.isHaLeader = some false then []
  else
    match k.users with
    | .ok users => usersToNotify k.now users
    | .error _ => []

/-- This run reads the users, and the one with this id has a password that expires at `exp`. -/
structure Lists (k : ExpiryTick) (uid : String) (exp : Int) : Prop where
  leads : k.isHaLeader ≠ some false
  reads : ∃ users, k.users = .ok users ∧
    (users.filter (·.id == uid)).map (·.passwordExpires) = [some exp]

end ExpiryTick

/-- `password_expiry_checker`: the users in the order in which they are written to -/
def passwordExpiryChecker (ticks : List ExpiryTick) : List User :=
  ticks.flatMap ExpiryTick.notified

/-- Those e-mails that go to one user. -/
def warnings (uid : String) (ticks : List ExpiryTick) : List User :=
  (passwordExpiryChecker ticks).filter (·.id == uid)

/-- A run at this time warns of this expiry. -/
def inWarningWindow (exp now : Int) : Bool := exp ≤ now + 10 * 86400 && exp > now + 9 * 86400

/-- The checker runs before nine days are left, and after ten days were. -/
def SpansWindow (times : List Int) (exp : Int) : Prop :=
  (∃ now ∈ times, exp > now + 9 * 86400) ∧ ∃ now ∈ times, exp ≤ now + 10 * 86400

/-- Every password that expires is announced once, as long as its user keeps it. -/
def WarnsOnce (times : List Int) : Prop :=
  ∀ (ticks : List ExpiryTick) (uid : String) (exp : Int), ticks.map (·.now) = times →
    (∀ k ∈ ticks, k.Lists uid exp) → SpansWindow times exp → (warnings uid ticks).length = 1

/-- In some runs at these times, some user whose expiry they span is warned `n` times. -/
def WarnsSome (times : List Int) (n : ℕ) : Prop :=
  ∃ (ticks : List ExpiryTick) (uid : String) (exp : Int), ticks.map (·.now) = times ∧
    (∀ k ∈ ticks, k.Lists uid exp) ∧ SpansWindow times exp ∧ (warnings uid ticks).length = n

section ExpiryChecker

variable {k : ExpiryTick} {ticks : List ExpiryTick} {times : List Int} {uid : String} {exp : Int}

theorem notified_length (hk : k.Lists uid exp) :
    (k.notified.filter (·.id == uid)).length = if inWarningWindow exp k.now then 1 else 0 := by
  obtain ⟨users, husers, hrow⟩ := hk.reads
  obtain ⟨u, hu, hexp⟩ := List.map_eq_singleton_iff.mp hrow
  have hnotified : k.notified = ExpiryTick.usersToNotify k.now users := by
    rw [ExpiryTick.notified, if_neg hk.leads, husers]
  -- both filters commute, and the one by the id leaves the row
  have hcomm : k.notified.filter (·.id == uid) =
      ExpiryTick.usersToNotify k.now (users.filter (·.id == uid)) := by
    rw [hnotified, ExpiryTick.usersToNotify, ExpiryTick.usersToNotify, List.filter_filter,
      List.filter_filter]
    apply List.filter_congr
    intro a _
    exact Bool.and_comm _ _
  rw [hcomm, hu, ExpiryTick.usersToNotify, List.filter_singleton, hexp]
  show (bif inWarningWindow exp k.now then [u] else []).length = _
  cases inWarningWindow exp k.now <;> rfl

theorem warnings_length (hticks : ∀ k ∈ ticks, k.Lists uid exp) :
    (warnings uid ticks).length = (ticks.map (·.now)).countP (inWarningWindow exp) := by
  induction ticks with
  | nil => rfl
  | cons k ticks ih =>
      obtain ⟨hk, hticks⟩ := List.forall_mem_cons.mp hticks
      have hcons : warnings uid (k :: ticks) =
          k.notified.filter (·.id == uid) ++ warnings uid ticks := by
        rw [warnings, passwordExpiryChecker, List.flatMap_cons, List.filter_append]
        rfl
      rw [hcons, List.length_append, notified_length hk, ih hticks, List.map_cons,
        List.countP_cons, Nat.add_comm]

/-- The windows of two runs that are a day apart do not meet. -/
theorem countP_le_one (h : times.Pairwise fun a b => a + 86400 ≤ b) :
    times.countP (inWarningWindow exp) ≤ 1 := by
  induction times with
  | nil => exact Nat.zero_le _
  | cons a times ih =>
      obtain ⟨ha, h⟩ := List.pairwise_cons.mp h
      cases hw : inWarningWindow exp a with
      | false =>
          rw [List.countP_cons_of_neg (by rw [hw]; exact Bool.false_ne_true)]
          exact ih h
      | true =>
          rw [List.countP_cons_of_pos hw]
          apply Nat.succ_le_succ
          apply Nat.le_of_eq
          apply List.countP_eq_zero.mpr
          intro b hb hwb
          have := ha b hb
          simp only [inWarningWindow, Bool.and_eq_true, decide_eq_true_eq] at hw hwb
          omega

theorem countP_pos (h : times.IsChain fun a b => b = a + 86400) (hspan : SpansWindow times exp) :
    0 < times.countP (inWarningWindow exp) := by
  rw [List.countP_pos_iff]
  induction times with
  | nil =>
      obtain ⟨⟨_, hmem, _⟩, _⟩ := hspan
      cases hmem
  | cons a times ih =>
      obtain ⟨⟨x, hx, hbefore⟩, ⟨y, hy, hafter⟩⟩ := hspan
      have hsorted : (a :: times).Pairwise (· < ·) :=
        List.isChain_iff_pairwise.mp (h.imp fun b c hbc => by omega)
      have hax : a ≤ x := by
        obtain rfl | hx := List.mem_cons.mp hx
        · exact Int.le_refl _
        · exact Int.le_of_lt (List.rel_of_pairwise_cons hsorted hx)
      by_cases ha : exp ≤ a + 10 * 86400
      · -- the first run is in the window
        apply Exists.intro a
        apply And.intro List.mem_cons_self
        show (decide _ && decide _) = true
        rw [decide_eq_true ha, decide_eq_true (by omega : exp > a + 9 * 86400)]
        rfl
      · -- it comes before the window, so the next one is not past it
        obtain rfl | hy := List.mem_cons.mp hy
        · exact absurd hafter ha
        cases times with
        | nil => cases hy
        | cons b times =>
            obtain ⟨hab, h⟩ := List.isChain_cons_cons.mp h
            have hspan : SpansWindow (b :: times) exp :=
              ⟨⟨b, List.mem_cons_self, by omega⟩, ⟨y, hy, hafter⟩⟩
            obtain ⟨z, hz, hw⟩ := ih h hspan
            exact ⟨z, List.mem_cons_of_mem _ hz, hw⟩

/-- The runs that list nobody but this user. -/
def listing (uid : String) (exp : Int) (times : List Int) : List ExpiryTick :=
  times.map fun now =>
    ⟨now, none, .ok [{ sampleUser with id := uid, passwordExpires := some exp }]⟩

theorem lists_listing (hk : k ∈ listing uid exp times) : k.Lists uid exp := by
  obtain ⟨now, _, rfl⟩ := List.mem_map.mp hk
  constructor
  · intro hfalse
    cases hfalse
  · apply Exists.intro _
    apply And.intro rfl
    rw [List.filter_singleton, beq_self_eq_true]
    rfl

theorem map_now_listing : (listing uid exp times).map (·.now) = times := by
  rw [listing, List.map_map]
  exact List.map_id _

theorem warnsSome_countP (hspan : SpansWindow times exp) :
    WarnsSome times (times.countP (inWarningWindow exp)) := by
  have hlists : ∀ k ∈ listing "user" exp times, k.Lists "user" exp := fun k => lists_listing
  refine ⟨_, _, _, map_now_listing, hlists, hspan, ?_⟩
  rw [warnings_length hlists, map_now_listing]

theorem WarnsOnce.eq_one {n : ℕ} (h : WarnsOnce times) (hsome : WarnsSome times n) : n = 1 := by
  obtain ⟨ticks, uid, exp, htimes, hticks, hspan, rfl⟩ := hsome
  exact h ticks uid exp htimes hticks hspan

section Gap

variable {a b : Int} {before after : List Int}

/-- Every run is `a` or one before it, or `b` or one after it. -/
theorem le_or_ge_of_sorted (hsorted : (before ++ a :: b :: after).Pairwise (· < ·)) {c : Int}
    (hc : c ∈ before ++ a :: b :: after) : c ≤ a ∨ b ≤ c := by
  obtain ⟨-, hcons, hbefore⟩ := List.pairwise_append.mp hsorted
  obtain ⟨-, hb⟩ := List.pairwise_cons.mp hcons
  obtain hc | hc := List.mem_append.mp hc
  · exact .inl (Int.le_of_lt (hbefore c hc a List.mem_cons_self))
  · obtain rfl | hc := List.mem_cons.mp hc
    · exact .inl (Int.le_refl _)
    · obtain rfl | hc := List.mem_cons.mp hc
      · exact .inr (Int.le_refl _)
      · exact .inr (Int.le_of_lt (List.rel_of_pairwise_cons hb hc))

/-- Who has ten days left just after `a` has nine of them before `b`. -/
theorem warnsSome_long (hsorted : (before ++ a :: b :: after).Pairwise (· < ·))
    (hlong : a + 86400 < b) : WarnsSome (before ++ a :: b :: after) 0 := by
  have hspan : SpansWindow (before ++ a :: b :: after) (a + 10 * 86400 + 1) :=
    ⟨⟨a, by simp, by omega⟩, ⟨b, by simp, by omega⟩⟩
  have hzero : (before ++ a :: b :: after).countP (inWarningWindow (a + 10 * 86400 + 1)) = 0 := by
    apply List.countP_eq_zero.mpr
    intro c hc hw
    have hc := le_or_ge_of_sorted hsorted hc
    rw [inWarningWindow, Bool.and_eq_true, decide_eq_true_eq, decide_eq_true_eq] at hw
    omega
  rw [← hzero]
  exact warnsSome_countP hspan

/-- Who has ten days left at `a` has more than nine of them at `b`. -/
theorem warnsSome_short (hab : a < b) (hshort : b < a + 86400) :
    ∃ n, 2 ≤ n ∧ WarnsSome (before ++ a :: b :: after) n := by
  have hspan : SpansWindow (before ++ a :: b :: after) (a + 10 * 86400) :=
    ⟨⟨a, by simp, by omega⟩, ⟨a, by simp, by omega⟩⟩
  refine ⟨_, ?_, warnsSome_countP hspan⟩
  have hwa : inWarningWindow (a + 10 * 86400) a = true := by
    rw [inWarningWindow, Bool.and_eq_true, decide_eq_true_eq, decide_eq_true_eq]
    omega
  have hwb : inWarningWindow (a + 10 * 86400) b = true := by
    rw [inWarningWindow, Bool.and_eq_true, decide_eq_true_eq, decide_eq_true_eq]
    omega
  rw [List.countP_append, List.countP_cons_of_pos hwa, List.countP_cons_of_pos hwb]
  omega

end Gap

/-- **The users are warned once in every schedule in which the days have 24 hours, and in no other
one**: after a shorter day some are warned twice, and after a longer one some are not warned. -/
theorem expiry_warned (hsorted : times.Pairwise (· < ·)) :
    (WarnsOnce times ↔ times.IsChain fun a b => b = a + 86400) ∧
      ∀ before a b after, times = before ++ a :: b :: after →
        (b < a + 86400 → ∃ n, 2 ≤ n ∧ WarnsSome times n) ∧
          (a + 86400 < b → WarnsSome times 0) := by
  have hgaps : ∀ before a b after, times = before ++ a :: b :: after →
      (b < a + 86400 → ∃ n, 2 ≤ n ∧ WarnsSome times n) ∧ (a + 86400 < b → WarnsSome times 0) := by
    rintro before a b after rfl
    obtain ⟨-, hcons, -⟩ := List.pairwise_append.mp hsorted
    have hab : a < b := List.rel_of_pairwise_cons hcons List.mem_cons_self
    exact ⟨warnsSome_short hab, warnsSome_long hsorted⟩
  refine ⟨⟨fun h => ?_, fun h ticks uid exp htimes hticks hspan => ?_⟩, hgaps⟩
  · rw [List.isChain_iff_forall_rel_of_append_cons_cons]
    intro a b before after htimes
    obtain ⟨hshort, hlong⟩ := hgaps before a b after htimes
    apply Int.le_antisymm
    · apply Int.le_of_not_gt
      intro hgt
      cases h.eq_one (hlong hgt)
    · apply Int.le_of_not_gt
      intro hlt
      obtain ⟨n, hn, hsome⟩ := hshort hlt
      have := h.eq_one hsome
      omega
  · rw [warnings_length hticks, htimes]
    apply Nat.le_antisymm
    · apply countP_le_one
      have : Trans (fun a b : Int => a + 86400 ≤ b) (fun a b => a + 86400 ≤ b)
          (fun a b => a + 86400 ≤ b) := ⟨fun hab hbc => by omega⟩
      apply List.isChain_iff_pairwise.mp
      exact h.imp fun a b hab => Int.le_of_eq hab.symm
    · exact countP_pos h hspan

/-- Three nights of 24 hours; and the night with the end of the summer time. -/
theorem expiry_warned_autumn : WarnsOnce [0, 86400, 172800] ∧ WarnsSome [0, 90000] 0 := by
  constructor
  · apply (expiry_warned (by decide)).1.mpr
    decide
  · exact ((expiry_warned (by decide)).2 [] 0 90000 [] rfl).2 (by decide)

end ExpiryChecker

/-! ### New versions -/

/-- The order of `semver::Version`, and its pre-release. -/
structure Semver (V : Type) where
  gt : V → V → Bool
  pre : V → String

/-- What one check reads, the latest version and the URL of its release, and whether the statements
of its writes are carried out. -/
structure VersionTick (V : Type) where
  isHaLeader : Option Bool
  lookup : Except ErrorResponse (V × String)
  saved : Bool
  savedAgain : Bool

/-- The row of the latest version, and what the checker remembers and has sent. -/
structure VersionCheck (V : Type) where
  row : Option (V × String)
  lastVersionNotification : Option V
  notices : List Notice

section VersionCheck

variable {V : Type} [DecidableEq V] (sv : Semver V) (thisVersion : V)

namespace VersionCheck

def init (row : Option (V × String)) : VersionCheck V := ⟨row, none, []⟩

/-- `LatestAppVersion::upsert`, whose errors are logged only -/
def upsert (st : VersionCheck V) (release : V × String) (saved : Bool) : VersionCheck V :=
  if saved then { st with row := some release } else st

/-- A later version that is not a pre-release -/
def newer (latestVersion : V) : Bool :=
  sv.gt latestVersion thisVersion && (sv.pre latestVersion).isEmpty

/-- The check, once it has looked the release up -/
def checkRelease (st : VersionCheck V) (release : V × String) (saved savedAgain : Bool) :
    VersionCheck V :=
  let st := st.upsert release saved
  if newer sv thisVersion release.1 then
    if st.lastVersionNotification = some release.1 then st
    else
      let st := st.upsert release savedAgain
      { st with lastVersionNotification := some release.1
                notices := st.notices ++ [.newRauthyVersion release.2] }
  else st

def checkAppVersion (st : VersionCheck V) (k : VersionTick V) : VersionCheck V :=
  if k.isHaLeader = some false then st
  else
    match k.lookup with
    | .error _ => st
    | .ok release => checkRelease sv thisVersion st release k.saved k.savedAgain

/-- `app_version_check`, after any number of checks -/
def appVersionCheck (disable : Bool) (row : Option (V × String)) (ticks : List (VersionTick V)) :
    VersionCheck V :=
  if disable then init row else ticks.foldl (checkAppVersion sv thisVersion) (init row)

end VersionCheck

open VersionCheck (newer checkRelease checkAppVersion appVersionCheck)

namespace VersionTick

/-- The release that this check finds. -/
def found (k : VersionTick V) : Option (V × String) :=
  if k.isHaLeader = some false then none else k.lookup.toOption

/-- The release, if it is a newer one. -/
def offered (k : VersionTick V) : Option (V × String) :=
  k.found.filter fun release => newer sv thisVersion release.1

/-- The release that is found, if one of its writes is carried out: the second one is made if it is
newer and its version not the one that was offered last. -/
def written (last : Option V) (k : VersionTick V) : Option (V × String) :=
  k.found.filter fun release =>
    k.saved || (k.savedAgain && newer sv thisVersion release.1 && decide (last ≠ some release.1))

end VersionTick

/-- The event about a release. -/
def releaseNotice (release : V × String) : Notice := .newRauthyVersion release.2

/-- The releases that are written, in order, after `last` was offered. -/
def writtenReleases : Option V → List (VersionTick V) → List (V × String)
  | _, [] => []
  | last, k :: ticks => (k.written sv thisVersion last).toList ++
      writtenReleases (((k.offered sv thisVersion).map Prod.fst).or last) ticks

variable {sv thisVersion} {st : VersionCheck V} {k : VersionTick V} {ticks : List (VersionTick V)}
  {release : V × String}
  {saved : Bool}

theorem check_eq :
    checkAppVersion sv thisVersion st k =
      k.found.elim st fun release =>
        checkRelease sv thisVersion st release k.saved k.savedAgain := by
  obtain ⟨leader, lookup, saved, savedAgain⟩ := k
  by_cases hleader : leader = some false
  · rw [checkAppVersion, VersionTick.found, if_pos hleader, if_pos hleader]
    rfl
  · rw [checkAppVersion, VersionTick.found, if_neg hleader, if_neg hleader]
    cases lookup <;> rfl

omit [DecidableEq V] in
theorem upsert_lastVersionNotification :
    (st.upsert release saved).lastVersionNotification = st.lastVersionNotification := by
  cases saved <;> rfl

omit [DecidableEq V] in
theorem upsert_notices : (st.upsert release saved).notices = st.notices := by
  cases saved <;> rfl

omit [DecidableEq V] in
theorem upsert_row :
    (st.upsert release saved).row = if saved then some release else st.row := by
  cases saved <;> rfl

theorem check_silent (st : VersionCheck V) (hk : k.offered sv thisVersion = none) :
    (checkAppVersion sv thisVersion st k).lastVersionNotification = st.lastVersionNotification ∧
      (checkAppVersion sv thisVersion st k).notices = st.notices := by
  rw [check_eq]
  rw [VersionTick.offered] at hk
  cases hfound : k.found with
  | none => exact ⟨rfl, rfl⟩
  | some release =>
      rw [hfound, Option.filter_eq_none_iff] at hk
      show (checkRelease sv thisVersion st release _ _).lastVersionNotification = _ ∧
        (checkRelease sv thisVersion st release _ _).notices = _
      rw [checkRelease, if_neg (hk release rfl)]
      exact ⟨upsert_lastVersionNotification, upsert_notices⟩

/-- A check that offers a release sends it, unless its version is the one it remembers. -/
theorem check_offered (st : VersionCheck V) (hk : k.offered sv thisVersion = some release) :
    (checkAppVersion sv thisVersion st k).lastVersionNotification = some release.1 ∧
      (checkAppVersion sv thisVersion st k).notices = st.notices ++
        if st.lastVersionNotification = some release.1 then [] else [releaseNotice release] := by
  rw [VersionTick.offered, Option.filter_eq_some_iff] at hk
  obtain ⟨hfound, hnewer⟩ := hk
  rw [check_eq, hfound]
  show (checkRelease sv thisVersion st release _ _).lastVersionNotification = _ ∧
    (checkRelease sv thisVersion st release _ _).notices = _
  rw [checkRelease, if_pos hnewer, upsert_lastVersionNotification]
  by_cases hlast : st.lastVersionNotification = some release.1
  · rw [if_pos hlast, if_pos hlast, List.append_nil]
    exact ⟨upsert_lastVersionNotification.trans hlast, upsert_notices⟩
  · rw [if_neg hlast, if_neg hlast]
    apply And.intro rfl
    show ((st.upsert release _).upsert release _).notices ++ _ = _
    rw [upsert_notices, upsert_notices]
    rfl

/-- The version that is remembered is the one that was offered last. -/
theorem check_last (st : VersionCheck V) (k : VersionTick V) :
    (checkAppVersion sv thisVersion st k).lastVersionNotification =
      ((k.offered sv thisVersion).map Prod.fst).or st.lastVersionNotification := by
  cases hk : k.offered sv thisVersion with
  | none => exact (check_silent st hk).1
  | some release => exact (check_offered st hk).1

/-- The checks after a version has been announced with its URL. -/
theorem checks_announced {sent : List Notice}
    (hlast : st.lastVersionNotification = some release.1)
    (hsent : st.notices = sent ++ [releaseNotice release]) :
    (ticks.foldl (checkAppVersion sv thisVersion) st).notices = sent ++
      ((ticks.filterMap (VersionTick.offered sv thisVersion)).destutter'
        (fun a b => a.1 ≠ b.1) release).map releaseNotice := by
  induction ticks generalizing st sent release with
  | nil => exact hsent
  | cons k ticks ih =>
      rw [List.foldl_cons]
      cases hk : k.offered sv thisVersion with
      | none =>
          rw [List.filterMap_cons_none hk]
          obtain ⟨hlast', hnotices⟩ := check_silent st hk
          exact ih (hlast'.trans hlast) (hnotices.trans hsent)
      | some next =>
          rw [List.filterMap_cons_some hk, List.destutter'_cons]
          obtain ⟨hlast', hnotices⟩ := check_offered st hk
          rw [hlast] at hnotices
          by_cases hsame : release.1 = next.1
          · -- the version that is remembered, so its URL does not matter
            rw [if_pos (congrArg some hsame), List.append_nil] at hnotices
            rw [if_neg (not_not_intro hsame)]
            apply ih (hlast'.trans (congrArg some hsame.symm))
            exact hnotices.trans hsent
          · rw [if_neg fun h => hsame (Option.some.inj h), hsent] at hnotices
            rw [if_pos hsame, List.map_cons, List.append_cons]
            exact ih hlast' hnotices

theorem checks_notices (hlast : st.lastVersionNotification = none) (hsent : st.notices = []) :
    (ticks.foldl (checkAppVersion sv thisVersion) st).notices =
      ((ticks.filterMap (VersionTick.offered sv thisVersion)).destutter
        (fun a b => a.1 ≠ b.1)).map releaseNotice := by
  induction ticks generalizing st with
  | nil => exact hsent
  | cons k ticks ih =>
      rw [List.foldl_cons]
      cases hk : k.offered sv thisVersion with
      | none =>
          rw [List.filterMap_cons_none hk]
          obtain ⟨hlast', hnotices⟩ := check_silent st hk
          exact ih (hlast'.trans hlast) (hnotices.trans hsent)
      | some release =>
          rw [List.filterMap_cons_some hk, List.destutter_cons']
          obtain ⟨hlast', hnotices⟩ := check_offered st hk
          rw [hlast, hsent] at hnotices
          exact checks_announced hlast' hnotices

theorem check_row (st : VersionCheck V) (k : VersionTick V) :
    (checkAppVersion sv thisVersion st k).row =
      (k.written sv thisVersion st.lastVersionNotification).or st.row := by
  rw [check_eq, VersionTick.written]
  cases k.found with
  | none => rfl
  | some release =>
      show (checkRelease sv thisVersion st release _ _).row = _
      rw [checkRelease, upsert_lastVersionNotification, Option.filter_some]
      cases newer sv thisVersion release.1 with
      | false =>
          rw [if_neg Bool.false_ne_true, upsert_row]
          cases k.saved <;> cases k.savedAgain <;> rfl
      | true =>
          rw [if_pos rfl]
          by_cases hlast : st.lastVersionNotification = some release.1
          · rw [if_pos hlast, upsert_row, decide_eq_false (not_not_intro hlast)]
            cases k.saved <;> cases k.savedAgain <;> rfl
          · rw [if_neg hlast, decide_eq_true hlast]
            show ((st.upsert release _).upsert release _).row = _
            rw [upsert_row, upsert_row]
            cases k.saved <;> cases k.savedAgain <;> rfl

/-- The row is the release that was written last. -/
theorem checks_row :
    (ticks.foldl (checkAppVersion sv thisVersion) st).row =
      (writtenReleases sv thisVersion st.lastVersionNotification ticks).getLast?.or st.row := by
  induction ticks generalizing st with
  | nil => rfl
  | cons k ticks ih =>
      rw [List.foldl_cons, ih, check_last, check_row, writtenReleases, List.getLast?_append,
        Option.or_assoc]
      cases k.written sv thisVersion st.lastVersionNotification <;> rfl

/-- **The announcements of new versions**, for every number of checks, whatever they find: the
releases that are newer than this version and no pre-releases, without those whose version is the
one announced last.  The row is the release that was written last. -/
theorem versions_announced {row : Option (V × String)} :
    (appVersionCheck sv thisVersion false row ticks).notices =
        ((ticks.filterMap (VersionTick.offered sv thisVersion)).destutter
          (fun a b => a.1 ≠ b.1)).map releaseNotice ∧
      (appVersionCheck sv thisVersion false row ticks).row =
        (writtenReleases sv thisVersion none ticks).getLast?.or row :=
  ⟨checks_notices rfl rfl, checks_row⟩

end VersionCheck

end Rauthy
