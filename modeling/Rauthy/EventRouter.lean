/-
Rauthy/EventRouter.lean

The event router (`EventListener::router`): one loop that owns the latest events and the clients
that listen to the event stream, and works through its messages.  A client is kept under its IP,
and it is dropped when its channel is closed or takes no event for five seconds; when that happens
is up to the environment, which answers every attempt to send.

Main results:
  * `history_latest`, what the history holds in every run;
  * `events_routed`: in every run in which events find the history not yet full, and no client
    registers from the IP of one that is still connected, all clients get what they asked for;
  * `same_ip_replaced`: the second client of an IP takes the place of the first.
-/
import Mathlib.Algebra.Group.Int.Defs
import Mathlib.Data.List.DropRight
import Rauthy.IpBlacklist

namespace Rauthy

/-! ### Events -/

inductive EventLevel where
  | info
  | notice
  | warning
  | critical
  deriving DecidableEq

/-- `EventLevel::value` -/
def EventLevel.value : EventLevel → Int
  | info => 0
  | notice => 1
  | warning => 2
  | critical => 3

inductive EventType where
  | invalidLogins
  | ipBlacklisted
  | ipBlacklistRemoved
  | jwksRotated
  | newUserRegistered
  | newRauthyAdmin
  | newRauthyVersion
  | possibleBruteForce
  | rauthyStarted
  | rauthyHealthy
  | rauthyUnhealthy
  | secretsMigrated
  | userEmailChange
  | userPasswordReset
  | test
  deriving DecidableEq

structure EventRouter.Event where
  id : String
  timestamp : Int
  level : EventLevel
  typ : EventType
  ip : Option String
  data : Option Int
  text : Option String
  deriving DecidableEq

/-- `EVENTS_LATEST_LIMIT` -/
def eventsLatestLimit : ℕ := 100

/-- `Event::find_latest`: the rows with the highest timestamps, these first. -/
def EventRouter.Event.findLatest (rows : List Event) (limit : ℕ) : List Event :=
  (rows.mergeSort fun a b => b.timestamp ≤ a.timestamp).take limit

/-- The channel of a client: every request of the event stream makes one of its own. -/
abbrev Tx : Type := ℕ

inductive EventRouterMsg where
  | event (event : String)
  | clientReg (ip : String) (tx : Tx) (latest : Option ℕ) (level : EventLevel)
  deriving DecidableEq

/-- How an attempt to send ends. -/
inductive SendRes where
  | sent
  /-- the receiver is gone -/
  | closed
  /-- the channel has been full for five seconds -/
  | timeout
  deriving DecidableEq

/-- What the router gets from elsewhere: the JSON of events, `DateTime::from_timestamp`, and the
answer to the `n`-th attempt to send on a channel. -/
structure RouterEnv where
  asJson : EventRouter.Event → String
  fromStr : String → Option EventRouter.Event
  fromTimestamp : Int → Option Int
  send : Tx → ℕ → SendRes

/-! ### The router -/

/-- The maps of the loop, what the channels have received, and what has been sent to the handler
of the blacklist. -/
structure EventRouter where
  clients : AList fun _ : String => Int × Tx
  events : List (Int × String)
  sent : Tx → List String
  blacklist : List IpBlacklistReq

namespace EventRouter

/-- The state in which the loop starts; the rows are those of the table, if it can be read. -/
def init (env : RouterEnv) (rows : Option (List Event)) : EventRouter where
  clients := ∅
  events := ((rows.map (Event.findLatest · eventsLatestLimit)).getD []).reverse.map fun e =>
    (e.level.value, env.asJson e)
  sent _ := []
  blacklist := []

/-- `tx.send(payload)` with its timeout -/
def send (env : RouterEnv) (sent : Tx → List String) (tx : Tx) (payload : String) :
    SendRes × (Tx → List String) :=
  match env.send tx (sent tx).length with
  | .sent => (.sent, fun t => if t = tx then sent tx ++ [payload] else sent t)
  | r => (r, sent)

/-- The loop over all clients; also the IPs of those that have to be removed. -/
def sendAll (env : RouterEnv) (level : Int) (payload : String) :
    List (Σ _ : String, Int × Tx) → (Tx → List String) → (Tx → List String) × List String
  | [], sent => (sent, [])
  | ⟨ip, clientLevel, tx⟩ :: cs, sent =>
      if clientLevel > level then sendAll env level payload cs sent
      else
        let (res, sent) := send env sent tx payload
        let (sent, ips) := sendAll env level payload cs sent
        (sent, if res = .sent then ips else ip :: ips)

/-- The loop over the latest events for a new client; also whether one could not be sent. -/
def sendLatest (env : RouterEnv) (tx : Tx) :
    List String → (Tx → List String) → (Tx → List String) × Bool
  | [], sent => (sent, false)
  | payload :: ps, sent =>
      let (res, sent) := send env sent tx payload
      if res = .sent then sendLatest env tx ps sent else (sent, true)

/-- The message to the handler of the blacklist, if the event is about one; `none` is the panic of
an `unwrap`. -/
def blacklistReq (env : RouterEnv) (evt : Event) : Option (List IpBlacklistReq) :=
  match evt.typ with
  | .invalidLogins => some [.loginFailedSet (evt.ip.getD "") (evt.data.getD 0 % 2 ^ 32).toNat]
  | .ipBlacklisted => evt.data.map fun data =>
      [.blacklist (evt.ip.getD "") ((env.fromTimestamp data).getD 0)]
  | .ipBlacklistRemoved => some [.blacklistDelete (evt.ip.getD "")]
  | _ => some []

/-- One turn of the loop; `none` is a panic. -/
def recv (env : RouterEnv) (s : EventRouter) : EventRouterMsg → Option EventRouter
  | .event event => do
      let evt ← env.fromStr event
      let req ← blacklistReq env evt
      let (sent, ips) := sendAll env evt.level.value event s.clients.entries s.sent
      let events := if s.events.length > eventsLatestLimit then s.events.drop 1 else s.events
      some {
        clients := ips.foldr AList.erase s.clients
        events := events ++ [(evt.level.value, event)]
        sent
        blacklist := s.blacklist ++ req }
  | .clientReg ip tx latest level =>
      let (sent, isErr) := match latest with
        | none => (s.sent, false)
        | some latest =>
            let filtered := (s.events.filter fun e : Int × String => e.1 ≥ level.value).map Prod.snd
            let skip := if latest > filtered.length then 0 else filtered.length - latest
            sendLatest env tx (filtered.drop skip) s.sent
      some { s with
        clients := if isErr then s.clients else s.clients.insert ip (level.value, tx)
        sent }

end EventRouter

/-! ### Runs -/

/-- The registrations of a list of messages come with this channel. -/
def Registers (ms : List EventRouterMsg) (tx : Tx) : Prop :=
  ∃ ip latest level, .clientReg ip tx latest level ∈ ms

/-- Every registration has a channel of its own. -/
def OwnChannel (ms : List EventRouterMsg) (m : EventRouterMsg) : Prop :=
  ∀ ip tx latest level, m = .clientReg ip tx latest level → ¬ Registers ms tx

/-- The states that the router reaches with the messages `ms`, where each of the steps meets the
condition `C`. -/
inductive RouterRun (env : RouterEnv) (C : EventRouter → EventRouterMsg → Prop)
    (s₀ : EventRouter) : List EventRouterMsg → EventRouter → Prop
  | refl : RouterRun env C s₀ [] s₀
  | step {ms : List EventRouterMsg} {s s' : EventRouter} {m : EventRouterMsg}
      (run : RouterRun env C s₀ ms s) (own : OwnChannel ms m) (cond : C s m)
      (recv : s.recv env m = some s') : RouterRun env C s₀ (ms ++ [m]) s'

/-- The event of a message, as the history keeps it. -/
def eventOf (env : RouterEnv) : EventRouterMsg → Option (Int × String)
  | .event event => (env.fromStr event).map fun evt => (evt.level.value, event)
  | .clientReg .. => none

/-- The latest events: those of the start and those of the messages. -/
def latestEvents (env : RouterEnv) (start : List (Int × String)) (n : ℕ)
    (ms : List EventRouterMsg) : List (Int × String) :=
  (start ++ ms.filterMap (eventOf env)).rtake n

/-- The payloads of the events that a client with this level wants. -/
def wanted (level : EventLevel) (events : List (Int × String)) : List String :=
  (events.filter fun e => level.value ≤ e.1).map Prod.snd

/-- The events that are sent to a client when it registers. -/
def replay (latest : Option ℕ) (level : EventLevel) (events : List (Int × String)) : List String :=
  match latest with
  | none => []
  | some n => (wanted level events).rtake n

/-- What a client gets that registers between the two lists of messages. -/
def clientEvents (env : RouterEnv) (start : List (Int × String))
    (before after : List EventRouterMsg) (latest : Option ℕ) (level : EventLevel) : List String :=
  replay latest level (latestEvents env start eventsLatestLimit before) ++
    wanted level (after.filterMap (eventOf env))

/-- The channel takes the next event. -/
def Connected (env : RouterEnv) (s : EventRouter) (tx : Tx) : Prop :=
  env.send tx (s.sent tx).length = .sent

/-- The history holds the latest events, and every client that is still connected has received
what it asked for and all later events of its level. -/
structure Routed (env : RouterEnv) (start : List (Int × String)) (ms : List EventRouterMsg)
    (s : EventRouter) : Prop where
  history : s.events = latestEvents env start eventsLatestLimit ms
  clients : ∀ before after ip tx latest level,
    ms = before ++ .clientReg ip tx latest level :: after → Connected env s tx →
      s.sent tx = clientEvents env start before after latest level

/-- The history has room, and nobody registers from the IP of a client that is still connected. -/
structure RoutesWell (env : RouterEnv) (s : EventRouter) (m : EventRouterMsg) : Prop where
  room : ∀ event, m = .event event → s.events.length < eventsLatestLimit
  ip : ∀ ip tx latest level, m = .clientReg ip tx latest level →
    ∀ lv tx', s.clients.lookup ip = some (lv, tx') → ¬ Connected env s tx'

variable {env : RouterEnv} {C : EventRouter → EventRouterMsg → Prop} {s₀ s s' : EventRouter}
variable {ms : List EventRouterMsg} {m : EventRouterMsg}
  {evt : EventRouter.Event} {tx : Tx} {rows : Option (List EventRouter.Event)}
  {start : List (Int × String)}

/-! ### The history -/

section History

variable {α : Type} {L : List α} {n : ℕ}

theorem length_rtake : (L.rtake n).length = min n L.length := by
  rw [List.rtake, List.length_drop]
  omega

theorem rtake_of_length_le (h : L.length ≤ n) : L.rtake n = L := by
  rw [List.rtake, Nat.sub_eq_zero_of_le h, List.drop_zero]

/-- The oldest entry makes room when there is one too many. -/
theorem pop_front_rtake :
    (if (L.rtake (n + 1)).length > n then (L.rtake (n + 1)).drop 1 else L.rtake (n + 1)) =
      L.rtake n := by
  rw [length_rtake]
  split
  · next h =>
      have hlen : L.length - (n + 1) + 1 = L.length - n := by omega
      rw [List.rtake, List.drop_drop, hlen, List.rtake]
  · next h =>
      have hlen : L.length ≤ n := by omega
      rw [rtake_of_length_le hlen, rtake_of_length_le (Nat.le_succ_of_le hlen)]

end History

theorem EventRouter.length_init (env : RouterEnv) (rows : Option (List Event)) :
    (EventRouter.init env rows).events.length ≤ eventsLatestLimit := by
  rw [EventRouter.init, List.length_map, List.length_reverse]
  rcases rows with - | rows
  · exact Nat.zero_le _
  · exact List.length_take_le _ _

theorem filterMap_event {event : String} (h : env.fromStr event = some evt)
    (ms : List EventRouterMsg) : (ms ++ [EventRouterMsg.event event]).filterMap (eventOf env) =
      ms.filterMap (eventOf env) ++ [(evt.level.value, event)] := by
  rw [List.filterMap_append]
  simp [eventOf, h]

theorem filterMap_clientReg (ip : String) (tx : Tx) (latest : Option ℕ) (level : EventLevel)
    (ms : List EventRouterMsg) :
    (ms ++ [EventRouterMsg.clientReg ip tx latest level]).filterMap (eventOf env) =
      ms.filterMap (eventOf env) := by
  rw [List.filterMap_append]
  simp [eventOf]

theorem EventRouter.recv_event {event : String} (h : s.recv env (.event event) = some s') :
    ∃ evt req, env.fromStr event = some evt ∧ blacklistReq env evt = some req ∧
      s' = { clients := (sendAll env evt.level.value event s.clients.entries s.sent).2.foldr
               AList.erase s.clients
             events := (if s.events.length > eventsLatestLimit then s.events.drop 1
               else s.events) ++ [(evt.level.value, event)]
             sent := (sendAll env evt.level.value event s.clients.entries s.sent).1
             blacklist := s.blacklist ++ req } := by
  rcases hevt : env.fromStr event with - | evt
  · simp [recv, hevt] at h
  · rcases hreq : blacklistReq env evt with - | req
    · simp [recv, hevt, hreq] at h
    · refine ⟨evt, req, rfl, hreq, ?_⟩
      simp only [recv, hevt, hreq, Option.bind_eq_bind, Option.bind_some, Option.some.injEq] at h
      exact h.symm

theorem EventRouter.recv_clientReg {ip : String} {latest : Option ℕ} {level : EventLevel}
    (h : s.recv env (.clientReg ip tx latest level) = some s') :
    s' = { s with
      clients := if (sendLatest env tx (replay latest level s.events) s.sent).2 then s.clients
        else s.clients.insert ip (level.value, tx)
      sent := (sendLatest env tx (replay latest level s.events) s.sent).1 } := by
  rcases latest with - | n
  · simp only [recv, Option.some.injEq] at h
    exact h.symm
  · have hskip : ∀ L : List String,
        L.drop (if n > L.length then 0 else L.length - n) = L.rtake n := by
      intro L
      rw [List.rtake]
      split
      · next hlt => rw [Nat.sub_eq_zero_of_le (Nat.le_of_lt hlt)]
      · rfl
    simp only [recv, Option.some.injEq, ge_iff_le] at h
    rw [hskip] at h
    exact h.symm

/-- **The history holds the latest events**, one more of them than the limit says. -/
theorem history_latest (h : RouterRun env C (EventRouter.init env rows) ms s) :
    s.events = latestEvents env (EventRouter.init env rows).events (eventsLatestLimit + 1) ms := by
  induction h with
  | refl =>
      rw [latestEvents, List.filterMap_nil, List.append_nil, rtake_of_length_le]
      exact Nat.le_succ_of_le (EventRouter.length_init env rows)
  | @step ms s s' m _ _ _ hrecv ih =>
      cases m with
      | event event =>
          obtain ⟨evt, req, hevt, -, rfl⟩ := EventRouter.recv_event hrecv
          show _ ++ _ = _
          rw [ih, latestEvents, pop_front_rtake, latestEvents, filterMap_event hevt,
            ← List.append_assoc, List.rtake_concat_succ]
      | clientReg ip tx latest level =>
          rw [EventRouter.recv_clientReg hrecv]
          show s.events = _
          rw [ih, latestEvents, latestEvents, filterMap_clientReg]

/-- As long as there is room for them, it holds all of them. -/
theorem all_events_le (h : RouterRun env (RoutesWell env) (EventRouter.init env rows) ms s) :
    ((EventRouter.init env rows).events ++ ms.filterMap (eventOf env)).length ≤
      eventsLatestLimit := by
  induction h with
  | refl =>
      rw [List.filterMap_nil, List.append_nil]
      exact EventRouter.length_init env rows
  | @step ms s s' m hrun _ hcond hrecv ih =>
      cases m with
      | event event =>
          obtain ⟨evt, req, hevt, -, -⟩ := EventRouter.recv_event hrecv
          have hroom := hcond.room event rfl
          rw [history_latest hrun, latestEvents, length_rtake] at hroom
          rw [filterMap_event hevt, ← List.append_assoc, List.length_append, List.length_singleton]
          omega
      | clientReg ip tx latest level =>
          rw [filterMap_clientReg]
          exact ih

/-! ### The clients -/

section Sending

variable {sent : Tx → List String} {tx : Tx} {payload : String} {level : Int}
variable {cs : List (Σ _ : String, Int × Tx)}

theorem EventRouter.send_of_sent (h : env.send tx (sent tx).length = .sent) :
    send env sent tx payload =
      (.sent, fun t => if t = tx then sent tx ++ [payload] else sent t) := by
  rw [send, h]

theorem EventRouter.send_of_not_sent (h : env.send tx (sent tx).length ≠ .sent) :
    (send env sent tx payload).1 ≠ .sent ∧ (send env sent tx payload).2 = sent := by
  rcases hres : env.send tx (sent tx).length with - | - | -
  · exact absurd hres h
  · rw [send, hres]
    exact ⟨by simp, rfl⟩
  · rw [send, hres]
    exact ⟨by simp, rfl⟩

theorem EventRouter.send_other {t : Tx} (ht : t ≠ tx) :
    (send env sent tx payload).2 t = sent t := by
  by_cases h : env.send tx (sent tx).length = .sent
  · rw [send_of_sent h]
    exact if_neg ht
  · rw [(send_of_not_sent h).2]

theorem EventRouter.sendAll_other (h : ∀ ip lv, ⟨ip, lv, tx⟩ ∈ cs → level < lv) :
    (sendAll env level payload cs sent).1 tx = sent tx := by
  induction cs generalizing sent with
  | nil => rfl
  | cons c cs ih =>
      obtain ⟨ip, lv, tx'⟩ := c
      have hcs : ∀ ip lv, ⟨ip, lv, tx⟩ ∈ cs → level < lv :=
        fun ip lv hmem => h ip lv (List.mem_cons_of_mem _ hmem)
      rw [sendAll]
      split
      · exact ih hcs
      · next hle =>
          have hne : tx ≠ tx' := by
            rintro rfl
            exact hle (h ip lv List.mem_cons_self)
          exact (ih hcs).trans (send_other hne)

theorem EventRouter.sendAll_not_sent (h : env.send tx (sent tx).length ≠ .sent) :
    (sendAll env level payload cs sent).1 tx = sent tx := by
  induction cs generalizing sent with
  | nil => rfl
  | cons c cs ih =>
      obtain ⟨ip, lv, tx'⟩ := c
      rw [sendAll]
      split
      · exact ih h
      · have hsame : (send env sent tx' payload).2 tx = sent tx := by
          by_cases htx : tx = tx'
          · subst htx
            rw [(send_of_not_sent h).2]
          · exact send_other htx
        have hnot : env.send tx ((send env sent tx' payload).2 tx).length ≠ .sent := by
          rw [hsame]
          exact h
        exact (ih hnot).trans hsame

theorem EventRouter.sendAll_sent (hcs : cs.Pairwise fun a b => a.2.2 ≠ b.2.2) {ip : String}
    {lv : Int}
    (hmem : ⟨ip, lv, tx⟩ ∈ cs) (hle : lv ≤ level) (h : env.send tx (sent tx).length = .sent) :
    (sendAll env level payload cs sent).1 tx = sent tx ++ [payload] := by
  induction cs generalizing sent with
  | nil => cases hmem
  | cons c cs ih =>
      obtain ⟨ip', lv', tx'⟩ := c
      obtain ⟨hfirst, hrest⟩ := List.pairwise_cons.mp hcs
      rw [sendAll]
      rcases List.mem_cons.mp hmem with heq | hin
      · cases heq
        have hnot : ¬ lv > level := by omega
        rw [if_neg hnot, send_of_sent h]
        have hother : ∀ ip lv, ⟨ip, lv, tx⟩ ∈ cs → level < lv :=
          fun ip' lv' hin => absurd rfl (hfirst ⟨ip', lv', tx⟩ hin)
        exact (sendAll_other hother).trans (if_pos rfl)
      · have hne : tx ≠ tx' := fun htx => hfirst _ hin htx.symm
        split
        · exact ih hrest hin h
        · have hsame : (send env sent tx' payload).2 tx = sent tx := send_other hne
          have hsend : env.send tx ((send env sent tx' payload).2 tx).length = .sent := by
            rw [hsame]
            exact h
          show (sendAll env level payload cs (send env sent tx' payload).2).1 tx = _
          rw [ih hrest hin hsend, hsame]

/-- Only clients that could not be sent the event are removed. -/
theorem EventRouter.mem_sendAll {ip : String} (hcs : cs.Pairwise fun a b => a.2.2 ≠ b.2.2)
    (h : ip ∈ (sendAll env level payload cs sent).2) :
    ∃ lv tx, ⟨ip, lv, tx⟩ ∈ cs ∧ env.send tx (sent tx).length ≠ .sent := by
  induction cs generalizing sent with
  | nil => cases h
  | cons c cs ih =>
      obtain ⟨ip', lv', tx'⟩ := c
      obtain ⟨hfirst, hrest⟩ := List.pairwise_cons.mp hcs
      have htail : ∀ {sent' : Tx → List String}, (∀ t, t ≠ tx' → sent' t = sent t) →
          ip ∈ (sendAll env level payload cs sent').2 →
          ∃ lv tx, ⟨ip, lv, tx⟩ ∈ ⟨ip', lv', tx'⟩ :: cs ∧ env.send tx (sent tx).length ≠ .sent := by
        intro sent' hsame hin
        obtain ⟨lv, tx, hmem, hsend⟩ := ih hrest hin
        have hne : tx ≠ tx' := fun htx => hfirst _ hmem htx.symm
        rw [hsame tx hne] at hsend
        exact ⟨lv, tx, List.mem_cons_of_mem _ hmem, hsend⟩
      rw [sendAll] at h
      split at h
      · exact htail (fun _ _ => rfl) h
      · by_cases hsend : env.send tx' (sent tx').length = .sent
        · rw [send_of_sent hsend] at h
          exact htail (fun t ht => if_neg ht) h
        · have hfail : (send env sent tx' payload).1 ≠ .sent ∧
              (send env sent tx' payload).2 = sent := send_of_not_sent hsend
          obtain ⟨hres, hsent⟩ := hfail
          simp only [if_neg hres, hsent, List.mem_cons] at h
          rcases h with rfl | h
          · exact ⟨lv', tx', List.mem_cons_self, hsend⟩
          · exact htail (fun _ _ => rfl) h

/-- What is sent to a new client: everything, unless it stops taking events. -/
theorem EventRouter.sendLatest_spec (ps : List String) :
    ((sendLatest env tx ps sent).2 = false ∧
      (sendLatest env tx ps sent).1 tx = sent tx ++ ps ∨
    (sendLatest env tx ps sent).2 = true ∧
      env.send tx ((sendLatest env tx ps sent).1 tx).length ≠ .sent) ∧
    ∀ t, t ≠ tx → (sendLatest env tx ps sent).1 t = sent t := by
  induction ps generalizing sent with
  | nil => exact ⟨.inl ⟨rfl, (List.append_nil _).symm⟩, fun _ _ => rfl⟩
  | cons p ps ih =>
      rw [sendLatest]
      by_cases h : env.send tx (sent tx).length = .sent
      · rw [send_of_sent h]
        obtain ⟨hown, hother⟩ := @ih fun t => if t = tx then sent tx ++ [p] else sent t
        simp only [if_true, List.append_assoc, List.singleton_append] at hown
        refine ⟨hown, fun t ht => ?_⟩
        exact (hother t ht).trans (if_neg ht)
      · have hfail : (send env sent tx p).1 ≠ .sent ∧ (send env sent tx p).2 = sent :=
          send_of_not_sent h
        obtain ⟨hres, hsent⟩ := hfail
        simp only [if_neg hres, hsent]
        exact ⟨.inr ⟨trivial, h⟩, fun _ _ => trivial⟩

end Sending

/-- What is removed is gone, and the rest is still there. -/
theorem lookup_foldr_erase {β : String → Type} (c : AList β) (ips : List String) (ip : String) :
    (ips.foldr AList.erase c).lookup ip = if ip ∈ ips then none else c.lookup ip := by
  induction ips with
  | nil => rfl
  | cons ip' ips ih =>
      rw [List.foldr_cons]
      by_cases h : ip = ip'
      · subst h
        rw [AList.lookup_erase, if_pos List.mem_cons_self]
      · rw [AList.lookup_erase_ne h, ih]
        simp only [List.mem_cons, h, false_or]

/-- The clients of the map come from registrations, with a channel each, and what they are sent is
what they registered for. -/
structure Tracked (env : RouterEnv) (start : List (Int × String)) (ms : List EventRouterMsg)
    (s : EventRouter) : Prop where
  channels : ∀ ip ip' lv lv' tx, s.clients.lookup ip = some (lv, tx) →
    s.clients.lookup ip' = some (lv', tx) → ip = ip'
  registered : ∀ ip lv tx, s.clients.lookup ip = some (lv, tx) → Registers ms tx
  idle : ∀ tx, ¬ Registers ms tx → s.sent tx = []
  clients : ∀ before after ip tx latest level,
    ms = before ++ .clientReg ip tx latest level :: after → Connected env s tx →
      s.clients.lookup ip = some (level.value, tx) ∧
        s.sent tx = clientEvents env start before after latest level

theorem Registers.append (h : Registers ms tx) (m : EventRouterMsg) :
    Registers (ms ++ [m]) tx := by
  obtain ⟨ip, latest, level, hmem⟩ := h
  exact ⟨ip, latest, level, List.mem_append_left _ hmem⟩

theorem Tracked.pairwise (h : Tracked env start ms s) :
    s.clients.entries.Pairwise fun a b => a.2.2 ≠ b.2.2 := by
  have hkeys : s.clients.entries.Pairwise fun a b => a.1 ≠ b.1 :=
    List.pairwise_map.mp s.clients.nodupKeys
  refine hkeys.imp_of_mem fun {a b} ha hb hne htx => hne ?_
  obtain ⟨ip, lv, tx⟩ := a
  obtain ⟨ip', lv', tx'⟩ := b
  obtain rfl : tx = tx' := htx
  exact h.channels ip ip' lv lv' tx (AList.mem_lookup_iff.mpr ha) (AList.mem_lookup_iff.mpr hb)

theorem clientEvents_event {event : String} (hevt : env.fromStr event = some evt)
    (before after : List EventRouterMsg) (latest : Option ℕ) (level : EventLevel) :
    clientEvents env start before (after ++ [.event event]) latest level =
      clientEvents env start before after latest level ++
        if level.value ≤ evt.level.value then [event] else [] := by
  have hwanted : wanted level [(evt.level.value, event)] =
      if level.value ≤ evt.level.value then [event] else [] := by
    by_cases hle : level.value ≤ evt.level.value <;> simp [wanted, hle]
  rw [clientEvents, clientEvents, filterMap_event hevt, ← hwanted, List.append_assoc, wanted,
    wanted,
    wanted, List.filter_append, List.map_append]

theorem clientEvents_clientReg (ip : String) (tx : Tx) (latest' : Option ℕ) (level' : EventLevel)
    (before after : List EventRouterMsg) (latest : Option ℕ) (level : EventLevel) :
    clientEvents env start before (after ++ [.clientReg ip tx latest' level']) latest level =
      clientEvents env start before after latest level := by
  rw [clientEvents, clientEvents, filterMap_clientReg]

/-- A registration in a longer list is the last one, or one before. -/
theorem split_concat {before after : List EventRouterMsg} {r : EventRouterMsg}
    (h : ms ++ [m] = before ++ r :: after) :
    (after = [] ∧ ms = before ∧ m = r) ∨ ∃ after', after = after' ++ [m] ∧
      ms = before ++ r :: after' := by
  rcases List.eq_nil_or_concat' after with rfl | ⟨after', m', rfl⟩
  · obtain ⟨hms, hm⟩ := List.append_inj' h rfl
    exact .inl ⟨rfl, hms, List.singleton_inj.mp hm⟩
  · have hsplit : ms ++ [m] = (before ++ r :: after') ++ [m'] := by
      rw [h, List.append_assoc, List.cons_append]
    obtain ⟨hms, hm⟩ := List.append_inj' hsplit rfl
    rw [List.singleton_inj] at hm
    exact .inr ⟨after', by rw [hm], hms⟩

theorem Tracked.event (h : Tracked env start ms s) {event : String}
    (hrecv : s.recv env (.event event) = some s') :
    Tracked env start (ms ++ [.event event]) s' := by
  obtain ⟨evt, req, hevt, -, rfl⟩ := EventRouter.recv_event hrecv
  have hcs := h.pairwise
  have hlookup : ∀ ip c, ((EventRouter.sendAll env evt.level.value event s.clients.entries
      s.sent).2.foldr AList.erase s.clients).lookup ip = some c → s.clients.lookup ip = some c := by
    intro ip c hc
    rw [lookup_foldr_erase] at hc
    split at hc
    · cases hc
    · exact hc
  have hregisters : ∀ tx, Registers (ms ++ [.event event]) tx → Registers ms tx := by
    rintro tx ⟨ip, latest, level, hmem⟩
    rcases List.mem_append.mp hmem with hmem | hmem
    · exact ⟨ip, latest, level, hmem⟩
    · cases List.mem_singleton.mp hmem
  refine ⟨?_, ?_, ?_, ?_⟩
  · intro ip ip' lv lv' tx hip hip'
    exact h.channels ip ip' lv lv' tx (hlookup _ _ hip) (hlookup _ _ hip')
  · intro ip lv tx hip
    exact (h.registered ip lv tx (hlookup _ _ hip)).append _
  · intro tx htx
    have hold : ¬ Registers ms tx := fun hreg => htx (hreg.append _)
    show (EventRouter.sendAll env _ event s.clients.entries s.sent).1 tx = []
    rw [EventRouter.sendAll_other, h.idle tx hold]
    intro ip lv hmem
    exact absurd (h.registered ip lv tx (AList.mem_lookup_iff.mpr hmem)) hold
  · intro before after ip tx latest level hsplit hconn
    rcases split_concat hsplit with ⟨-, -, hm⟩ | ⟨after', rfl, hms⟩
    · cases hm
    · by_cases hsend : Connected env s tx
      · obtain ⟨hmap, hsent⟩ := h.clients before after' ip tx latest level hms hsend
        have hmem := AList.mem_lookup_iff.mp hmap
        refine ⟨?_, ?_⟩
        · -- a client whose channel takes events is not removed
          show ((EventRouter.sendAll env _ event _ _).2.foldr AList.erase s.clients).lookup ip = _
          rw [lookup_foldr_erase, if_neg]
          · exact hmap
          · intro hip
            obtain ⟨lv, tx', hmem', hnot⟩ := EventRouter.mem_sendAll hcs hip
            rw [AList.mem_lookup_iff.mpr hmem'] at hmap
            cases hmap
            exact hnot hsend
        · show (EventRouter.sendAll env _ event _ _).1 tx = _
          rw [clientEvents_event hevt, ← hsent]
          split
          · next hle => exact EventRouter.sendAll_sent hcs hmem hle hsend
          · next hnle =>
              rw [EventRouter.sendAll_other, List.append_nil]
              intro ip' lv' hmem'
              have hip := h.channels ip ip' _ _ tx hmap (AList.mem_lookup_iff.mpr hmem')
              subst hip
              have heq := AList.mem_lookup_iff.mpr hmem'
              rw [hmap] at heq
              cases heq
              omega
      · have hsame : (EventRouter.sendAll env evt.level.value event s.clients.entries s.sent).1 tx =
            s.sent tx := EventRouter.sendAll_not_sent hsend
        have hconn : env.send tx ((EventRouter.sendAll env evt.level.value event s.clients.entries
          s.sent).1 tx).length = .sent := hconn
        rw [hsame] at hconn
        exact absurd hconn hsend

theorem Tracked.clientReg (h : Tracked env start ms s)
    (hhist : s.events = latestEvents env start eventsLatestLimit ms) {ip : String}
    {latest : Option ℕ} {level : EventLevel} (hown : ¬ Registers ms tx)
    (hip : ∀ lv tx', s.clients.lookup ip = some (lv, tx') → ¬ Connected env s tx')
    (hrecv : s.recv env (.clientReg ip tx latest level) = some s') :
    Tracked env start (ms ++ [.clientReg ip tx latest level]) s' := by
  obtain ⟨hnew, hother⟩ := @EventRouter.sendLatest_spec env s.sent tx
    (replay latest level s.events)
  rw [EventRouter.recv_clientReg hrecv]
  have hunknown : ∀ ip lv, s.clients.lookup ip ≠ some (lv, tx) :=
    fun ip lv hlookup => hown (h.registered ip lv tx hlookup)
  have hlookup : ∀ ip' c, (if (EventRouter.sendLatest env tx (replay latest level s.events)
      s.sent).2 then s.clients else s.clients.insert ip (level.value, tx)).lookup ip' = some c →
      s.clients.lookup ip' = some c ∨ ip' = ip ∧ c = (level.value, tx) := by
    intro ip' c hc
    split at hc
    · exact .inl hc
    · by_cases hne : ip' = ip
      · subst hne
        rw [AList.lookup_insert] at hc
        exact .inr ⟨rfl, (Option.some.inj hc).symm⟩
      · rw [AList.lookup_insert_ne hne] at hc
        exact .inl hc
  refine ⟨?_, ?_, ?_, ?_⟩
  · intro ip₁ ip₂ lv₁ lv₂ tx' h₁ h₂
    rcases hlookup _ _ h₁ with old₁ | ⟨rfl, new₁⟩ <;> rcases hlookup _ _ h₂ with old₂ | ⟨rfl, new₂⟩
    · exact h.channels ip₁ ip₂ lv₁ lv₂ tx' old₁ old₂
    · cases new₂
      exact absurd old₁ (hunknown _ _)
    · cases new₁
      exact absurd old₂ (hunknown _ _)
    · rfl
  · intro ip' lv tx' hmap
    rcases hlookup _ _ hmap with hmap | ⟨rfl, heq⟩
    · exact (h.registered ip' lv tx' hmap).append _
    · cases heq
      exact ⟨ip', latest, level, List.mem_append_right _ (List.mem_singleton_self _)⟩
  · intro t ht
    have hne : t ≠ tx := by
      rintro rfl
      exact ht ⟨ip, latest, level, List.mem_append_right _ (List.mem_singleton_self _)⟩
    exact (hother t hne).trans (h.idle t fun hreg => ht (hreg.append _))
  · intro before after ip' tx' latest' level' hsplit hconn
    rcases split_concat hsplit with ⟨rfl, rfl, hm⟩ | ⟨after', rfl, hms⟩
    · cases hm
      have hevents : clientEvents env start ms [] latest level = replay latest level s.events := by
        rw [clientEvents, ← hhist, List.filterMap_nil]
        exact List.append_nil _
      rcases hnew with ⟨hok, hsent⟩ | ⟨-, hnot⟩
      · refine ⟨?_, ?_⟩
        · show (if _ then _ else _ : AList fun _ : String => Int × Tx).lookup ip = _
          rw [hok]
          exact AList.lookup_insert s.clients
        · show (EventRouter.sendLatest env tx _ _).1 tx = _
          rw [hsent, h.idle tx hown, hevents, List.nil_append]
      · exact absurd hconn hnot
    · have hreg : Registers ms tx' := by
        rw [hms]
        exact ⟨ip', latest', level', List.mem_append_right _ List.mem_cons_self⟩
      have hne : tx' ≠ tx := by
        rintro rfl
        exact hown hreg
      have hsame := hother tx' hne
      have hold : Connected env s tx' := by
        have hconn : env.send tx' ((EventRouter.sendLatest env tx (replay latest level s.events)
          s.sent).1 tx').length = .sent := hconn
        rw [hsame] at hconn
        exact hconn
      obtain ⟨hmap, hsent⟩ := h.clients before after' ip' tx' latest' level' hms hold
      have hip' : ip' ≠ ip := by
        rintro rfl
        exact hip _ _ hmap hold
      refine ⟨?_, ?_⟩
      · show (if _ then _ else _ : AList fun _ : String => Int × Tx).lookup ip' = _
        split
        · exact hmap
        · rw [AList.lookup_insert_ne hip']
          exact hmap
      · rw [clientEvents_clientReg, ← hsent]
        exact hsame

/-- **All clients get their events**: as long as there is room in the history, and clients of one
IP follow each other. -/
theorem events_routed {rows : Option (List EventRouter.Event)}
    (h : RouterRun env (RoutesWell env) (EventRouter.init env rows) ms s) :
    Routed env (EventRouter.init env rows).events ms s := by
  have hhistory : ∀ {ms s}, RouterRun env (RoutesWell env) (EventRouter.init env rows) ms s →
      s.events = latestEvents env (EventRouter.init env rows).events eventsLatestLimit ms := by
    intro ms s h
    have hall := all_events_le h
    rw [history_latest h, latestEvents, rtake_of_length_le (Nat.le_succ_of_le hall), latestEvents,
      rtake_of_length_le hall]
  have htracked : Tracked env (EventRouter.init env rows).events ms s := by
    induction h with
    | refl =>
        refine ⟨?_, ?_, fun _ _ => rfl, ?_⟩
        · intro ip ip' lv lv' tx hlookup
          cases hlookup
        · intro ip lv tx hlookup
          cases hlookup
        · intro before after ip tx latest level hsplit
          cases before <;> cases hsplit
    | @step ms s s' m hrun hown hcond hrecv ih =>
        cases m with
        | event event => exact ih.event hrecv
        | clientReg ip tx latest level =>
            exact ih.clientReg (hhistory hrun) (hown ip tx latest level rfl)
              (hcond.ip ip tx latest level rfl) hrecv
  exact ⟨hhistory h, fun before after ip tx latest level hsplit hconn =>
    (htracked.clients before after ip tx latest level hsplit hconn).2⟩

/-! ### Two clients -/

/-- Every text is an event, and every channel takes everything. -/
def openEnv : RouterEnv where
  asJson _ := "event"
  fromStr _ := some { id := "id", timestamp := 0, level := .notice, typ := .test, ip := none,
                      data := none, text := none }
  fromTimestamp := some
  send _ _ := .sent

/-- The registration of a client that wants all events. -/
def registration (ip : String) (tx : Tx) : EventRouterMsg := .clientReg ip tx (some 5) .info

theorem ownChannel_event (ms : List EventRouterMsg) (event : String) :
    OwnChannel ms (.event event) := by
  intro ip tx latest level hm
  cases hm

theorem ownChannel_first (ip : String) (tx : Tx) : OwnChannel [] (registration ip tx) := by
  rintro ip tx latest level - ⟨ip', latest', level', hmem⟩
  cases hmem

/-- A client registers and gets the next event. -/
theorem events_routed_openEnv : ∃ s, RouterRun openEnv (RoutesWell openEnv)
    (EventRouter.init openEnv none) [registration "10.0.0.1" 0, .event "event"] s ∧
      Routed openEnv (EventRouter.init openEnv none).events
        [registration "10.0.0.1" 0, .event "event"] s ∧ s.sent 0 = ["event"] := by
  have hcond : ∀ m, RoutesWell openEnv (EventRouter.init openEnv none) m := by
    refine fun m => ⟨fun _ _ => Nat.zero_lt_succ _, ?_⟩
    intro ip tx latest level _ lv tx' hlookup
    cases hlookup
  have hreg := @RouterRun.step openEnv _ _ _ _ _ (registration "10.0.0.1" 0) .refl
    (ownChannel_first _ _) (hcond _) rfl
  have hevent := @RouterRun.step openEnv _ _ _ _ _ (.event "event") hreg (ownChannel_event _ _)
    ⟨fun _ _ => Nat.zero_lt_succ _, fun _ _ _ _ hm => by cases hm⟩ rfl
  exact ⟨_, hevent, events_routed hevent, rfl⟩

/-- The second client of an IP takes the place of the first. -/
theorem same_ip_replaced :
    ¬ ∀ (env : RouterEnv) (rows : Option (List EventRouter.Event)) (ms : List EventRouterMsg)
      (s : EventRouter), RouterRun env (fun _ _ => True) (EventRouter.init env rows) ms s →
      Routed env (EventRouter.init env rows).events ms s := by
  intro hall
  have hfirst := @RouterRun.step openEnv (fun _ _ => True) (EventRouter.init openEnv none) _ _ _
    (registration "10.0.0.1" 0) .refl (ownChannel_first _ _) trivial rfl
  have hown : OwnChannel ([] ++ [registration "10.0.0.1" 0]) (registration "10.0.0.1" 1) := by
    rintro ip tx latest level hm ⟨ip', latest', level', hmem⟩
    cases hm
    cases List.mem_singleton.mp hmem
  have hsecond := @RouterRun.step openEnv _ _ _ _ _ _ hfirst hown trivial rfl
  have hevent := @RouterRun.step openEnv _ _ _ _ _ (.event "event") hsecond (ownChannel_event _ _)
    trivial rfl
  -- both are connected, and only the second has received the event
  have hsent := (hall openEnv none _ _ hevent).clients [] _ "10.0.0.1" 0 (some 5) .info rfl rfl
  cases hsent

end Rauthy
