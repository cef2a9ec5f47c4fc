/-
Rauthy/ClientJwks.lean

The key store of the client library (`rauthy-client/src/jwks.rs`): one task owns the keys that the
provider has published, and everybody who validates a token asks it for the key of the token.  A key
that is not there is looked up at the provider, but each name not more than once in five minutes.

Callers wait for the answer, and can stop waiting.  The task unwraps the result of sending the
answer, so an answer that nobody waits for ends the task, and with it every later validation.

Main results:
  * `handler_answers`: all messages are served once and in order, and what every lookup is answered;
  * `lookups_apart`: two lookups of one name at the provider are five minutes apart;
  * `handler_alive_iff`: the task lives until it answers a caller that has stopped waiting.
-/
import Rauthy.Lib.Base64
import Rauthy.Lib.Mailbox
import Rauthy.Data

namespace Rauthy.RauthyClient

/-! ### The handler -/

/-- `rauthy_error.rs` -/
inductive RauthyError where
  | badRequest (msg : String)
  | base64 (msg : String)
  | encryption (msg : String)
  | internal (msg : String)
  | init (msg : String)
  | invalidClaims (msg : String)
  | invalidJwt (msg : String)
  | jwk (msg : String)
  | malformedJwt (msg : String)
  | provider (msg : String)
  | request (msg : String)
  | serde (msg : String)
  | token (msg : String)
  deriving DecidableEq

structure JwkPublicKey where
  kty : JwkKeyPairType
  alg : JwkKeyPairAlg
  kid : String
  crv : Option String
  n : Option String
  e : Option String
  x : Option String
  xBytes : Option Bytes
  deriving DecidableEq, Inhabited

/-- The messages; the channel for the answer to `get` is the name of its sender. -/
inductive JwksMsg where
  | get (kid : String)
  | update
  | newJwksUri (uri : String)
  deriving DecidableEq

/-- `cached::TimedCache`, which is not part of the repository: a set of names, each of which is
there until the lifespan (in milliseconds) after its last `cache_set` is over. -/
structure TimedCache (lifespan : Int) where
  State : Type
  withLifespan : State
  cacheGet : State → String → Int → Bool
  cacheSet : State → String → Int → State
  get_withLifespan : ∀ kid now, cacheGet withLifespan kid now = false
  get_cacheSet : ∀ s kid t kid' now, cacheGet (cacheSet s kid t) kid' now =
    if kid' = kid then decide (now - t < lifespan) else cacheGet s kid' now

/-- What the task owns. -/
structure JwksHandler (C : TimedCache 300000) where
  jwksUri : Option String
  recentlyLookedUp : C.State
  jwks : List JwkPublicKey

namespace JwksHandler

/-- The state in which the loop starts. -/
def init (C : TimedCache 300000) : JwksHandler C := ⟨none, C.withLifespan, []⟩

/-- The first key with this name. -/
def find (jwks : List JwkPublicKey) (kid : String) : Option JwkPublicKey :=
  jwks.find? fun jwk => jwk.kid == kid

end JwksHandler

/-- The bytes of an Ed25519 key are decoded once; a key that is no base 64 is left out. -/
def decodeKey (key : JwkPublicKey) : Option JwkPublicKey :=
  if key.alg = .edDSA then
    match key.x with
    | some x =>
        match Base64.decode Base64.urlSafe false x.toList with
        | some bytes => some { key with xBytes := some bytes }
        | none => none
    | none => some key
  else some key

/-- What the provider has answered; `none` if the request has failed, with an error, a bad status or
a body that is no list of keys. -/
abbrev Fetched := Option (List JwkPublicKey)

/-- `update`: the new keys, and the answer of the provider if it was asked. -/
def update (jwksUri : Option String) (currJwks : List JwkPublicKey) (fetched : Fetched) :
    List JwkPublicKey × Option Fetched :=
  match jwksUri with
  | none => (currJwks, none)
  | some _ =>
      match fetched with
      | some keys => (keys.filterMap decodeKey, some fetched)
      | none => (currJwks, some fetched)

/-- How a message was served. -/
structure Served where
  /-- the time at which the names are looked at, and the time at which the task goes on -/
  began : Int
  ended : Int
  /-- whether the name was looked up at the provider, and put into the cache -/
  lookup : Bool
  /-- what the provider has answered, if it was asked -/
  fetched : Option Fetched
  /-- the answer to the caller -/
  reply : Option (Except RauthyError JwkPublicKey)
  /-- whether the caller was still waiting for it -/
  waiting : Bool

/-- The second search for a key, after the keys have been updated. -/
def checkAgain (jwks : List JwkPublicKey) (kid : String) : Except RauthyError JwkPublicKey :=
  match JwksHandler.find jwks kid with
  | some jwk => .ok jwk
  | none => .error (.invalidClaims "'kid' not found after updating JWKs")

/-- One message, between `began` and `ended`. -/
def JwksHandler.recv {C : TimedCache 300000} (h : JwksHandler C) (began ended : Int)
    (fetched : Fetched) (waiting : Bool) : JwksMsg → JwksHandler C × Served
  | .get kid =>
      match find h.jwks kid with
      | some jwk => (h, ⟨began, ended, false, none, some (.ok jwk), waiting⟩)
      | none =>
          if C.cacheGet h.recentlyLookedUp kid began then
            (h, ⟨began, ended, false, none, some (.error (.invalidClaims
              "'kid' not found and it has been recently looked up")), waiting⟩)
          else
            let (jwks, asked) := update h.jwksUri h.jwks fetched
            let h := { h with
              jwks := jwks
              recentlyLookedUp := C.cacheSet h.recentlyLookedUp kid ended }
            (h, ⟨began, ended, true, asked, some (checkAgain h.jwks kid), waiting⟩)
  | .update =>
      let (jwks, asked) := update h.jwksUri h.jwks fetched
      ({ h with jwks := jwks }, ⟨began, ended, false, asked, none, waiting⟩)
  | .newJwksUri uri =>
      ({ h with jwksUri := some uri }, ⟨began, ended, false, none, none, waiting⟩)

/-! ### The task -/

structure JwksTask (C : TimedCache 300000) where
  /-- `none` if the task has panicked -/
  handler : Option (JwksHandler C)
  clock : Int
  /-- the callers that have stopped waiting -/
  gone : List ℕ

/-- What happens without a message: time passes, and callers stop waiting. -/
inductive JwksTask.Env {C : TimedCache 300000} : JwksTask C → JwksTask C → Prop
  | clock {s : JwksTask C} {now : Int} (h : s.clock ≤ now) : Env s { s with clock := now }
  | giveUp {s : JwksTask C} (i : ℕ) : Env s { s with gone := i :: s.gone }

def JwksMsg.isGet : JwksMsg → Bool
  | get _ => true
  | _ => false

/-- What the task sends itself. -/
def JwksMsg.sends : JwksMsg → List JwksMsg
  | newJwksUri _ => [update]
  | _ => []

/-- One message.  An answer that nobody waits for is unwrapped, and the task panics. -/
inductive JwksTask.Serve {C : TimedCache 300000} :
    JwksTask C → ℕ → JwksMsg → Served → JwksTask C → List JwksMsg → Prop
  | served {s : JwksTask C} {h : JwksHandler C} {i : ℕ} {m : JwksMsg} {began ended : Int}
      {fetched : Fetched} (hh : s.handler = some h) (hb : s.clock ≤ began) (he : began ≤ ended)
      (hi : m.isGet = true → i ∉ s.gone) :
      Serve s i m (h.recv began ended fetched true m).2
        { s with handler := some (h.recv began ended fetched true m).1, clock := ended } m.sends
  | panicked {s : JwksTask C} {h : JwksHandler C} {i : ℕ} {m : JwksMsg} {began ended : Int}
      {fetched : Fetched} (hh : s.handler = some h) (hb : s.clock ≤ began) (he : began ≤ ended)
      (hm : m.isGet = true) (hi : i ∈ s.gone) :
      Serve s i m (h.recv began ended fetched false m).2
        { s with handler := none, clock := ended } []

/-- The channel is unbounded.  When the task has panicked, its end of it is gone, and sending
fails. -/
def jwksService (C : TimedCache 300000) : Mailbox.Service ℕ JwksMsg Served (JwksTask C) where
  room := none
  admits s := s.handler ≠ none
  env := JwksTask.Env
  serve := JwksTask.Serve

abbrev JwksMailbox (C : TimedCache 300000) := Mailbox ℕ JwksMsg Served (JwksTask C)

/-- The task starts. -/
def jwksStart (C : TimedCache 300000) (now : Int) : JwksMailbox C :=
  Mailbox.init ⟨some (.init C), now, []⟩

abbrev JwksRun {C : TimedCache 300000} : JwksMailbox C → JwksMailbox C → Prop :=
  Mailbox.Run (jwksService C)

/-- A message that was served, its sender and how it was served. -/
abbrev JwksServed := (ℕ × JwksMsg) × Served

/-! ### What lookups are answered -/

/-- The keys after an answer of the provider. -/
def nextKeys (keys : List JwkPublicKey) : Option Fetched → List JwkPublicKey
  | some (some fetched) => fetched.filterMap decodeKey
  | _ => keys

/-- The keys after these messages: those that the provider has published last. -/
def publishedKeys (l : List JwksServed) : List JwkPublicKey :=
  l.foldl (fun keys a => nextKeys keys a.2.fetched) []

/-- The message was a lookup of this name at the provider. -/
def IsLookup (kid : String) (a : JwksServed) : Prop := a.1.2 = .get kid ∧ a.2.lookup = true

/-- The name was looked up less than five minutes before this time. -/
def RecentLookup (l : List JwksServed) (kid : String) (now : Int) : Prop :=
  ∃ a ∈ l, IsLookup kid a ∧ now - a.2.ended < 300000

/-- The answer to a caller, after the messages `l`. -/
inductive Answer (l : List JwksServed) (kid : String) (a : JwksServed) : Prop
  /-- the key is there -/
  | present {key : JwkPublicKey} (hkey : JwksHandler.find (publishedKeys l) kid = some key)
      (hreply : a.2.reply = some (.ok key)) (hlookup : a.2.lookup = false)
      (hfetched : a.2.fetched = none)
  /-- it is not there, and was looked up recently -/
  | refused (hkey : JwksHandler.find (publishedKeys l) kid = none)
      (hrecent : RecentLookup l kid a.2.began)
      (hreply : a.2.reply = some (.error (.invalidClaims
        "'kid' not found and it has been recently looked up")))
      (hlookup : a.2.lookup = false) (hfetched : a.2.fetched = none)
  /-- it is looked up, and there now -/
  | found {key : JwkPublicKey} (hold : JwksHandler.find (publishedKeys l) kid = none)
      (hrecent : ¬ RecentLookup l kid a.2.began)
      (hkey : JwksHandler.find (publishedKeys (l ++ [a])) kid = some key)
      (hreply : a.2.reply = some (.ok key)) (hlookup : a.2.lookup = true)
  /-- it is looked up, and still not there -/
  | missing (hold : JwksHandler.find (publishedKeys l) kid = none)
      (hrecent : ¬ RecentLookup l kid a.2.began)
      (hkey : JwksHandler.find (publishedKeys (l ++ [a])) kid = none)
      (hreply : a.2.reply = some (.error (.invalidClaims
        "'kid' not found after updating JWKs")))
      (hlookup : a.2.lookup = true)

/-- Every caller was answered by what was there at its turn. -/
def AllAnswered (l : List JwksServed) : Prop :=
  ∀ l₁ a l₂ kid, l = l₁ ++ a :: l₂ → a.1.2 = .get kid → Answer l₁ kid a

/-- The state of the handler is what has happened. -/
structure JwksHandler.After {C : TimedCache 300000} (h : JwksHandler C) (now : Int)
    (l : List JwksServed) : Prop where
  keys : h.jwks = publishedKeys l
  looked : ∀ kid t, C.cacheGet h.recentlyLookedUp kid t = true ↔ RecentLookup l kid t
  past : ∀ a ∈ l, a.2.ended ≤ now

section Handler

variable {C : TimedCache 300000} {h : JwksHandler C} {now began ended : Int} {l : List JwksServed}
  {a : JwksServed} {fetched : Fetched} {waiting : Bool} {i : ℕ} {m : JwksMsg} {kid : String}
  {jwks : List JwkPublicKey}

theorem JwksHandler.after_init : (init C).After now [] where
  keys := rfl
  looked kid t := by
    rw [init, C.get_withLifespan]
    constructor
    · intro h
      cases h
    · rintro ⟨a, ha, -⟩
      cases ha
  past a ha := by cases ha

theorem publishedKeys_append :
    publishedKeys (l ++ [a]) = nextKeys (publishedKeys l) a.2.fetched := by
  unfold publishedKeys
  rw [List.foldl_append]
  rfl

/-- What `update` leaves are the keys that are published afterwards. -/
theorem update_published {uri : Option String}
    (ha : a.2.fetched = (update uri (publishedKeys l) fetched).2) :
    (update uri (publishedKeys l) fetched).1 = publishedKeys (l ++ [a]) := by
  rw [publishedKeys_append, ha]
  cases uri with
  | none => rfl
  | some uri =>
      cases fetched with
      | none => rfl
      | some keys => rfl

theorem publishedKeys_kept (ha : a.2.fetched = none) :
    publishedKeys (l ++ [a]) = publishedKeys l := by
  rw [publishedKeys_append, ha]
  rfl

theorem past_append (hp : ∀ b ∈ l, b.2.ended ≤ now) (hn : now ≤ ended) (he : a.2.ended = ended) :
    ∀ b ∈ l ++ [a], b.2.ended ≤ ended := by
  intro b hb
  rcases List.mem_append.mp hb with hb | hb
  · exact Int.le_trans (hp b hb) hn
  · obtain rfl := List.mem_singleton.mp hb
    exact Int.le_of_eq he

theorem recentLookup_append {t : Int} : RecentLookup (l ++ [a]) kid t ↔
    RecentLookup l kid t ∨ IsLookup kid a ∧ t - a.2.ended < 300000 := by
  constructor
  · rintro ⟨b, hb, h⟩
    rcases List.mem_append.mp hb with hb | hb
    · exact .inl ⟨b, hb, h⟩
    · obtain rfl := List.mem_singleton.mp hb
      exact .inr h
  · rintro (⟨b, hb, h⟩ | h)
    · exact ⟨b, List.mem_append_left _ hb, h⟩
    · exact ⟨a, List.mem_append_right _ (List.mem_singleton_self a), h⟩

/-- A message that looks no name up leaves the cache alone. -/
theorem JwksHandler.After.keeps (hA : h.After now l) (uri : Option String)
    (hjwks : jwks = publishedKeys (l ++ [a])) (hlookup : a.2.lookup = false) (hn : now ≤ ended)
    (he : a.2.ended = ended) :
    JwksHandler.After { h with jwksUri := uri, jwks := jwks } ended (l ++ [a]) where
  keys := hjwks
  looked kid t := by
    have hno : ¬ IsLookup kid a := fun hl => Bool.false_ne_true (hlookup.symm.trans hl.2)
    rw [hA.looked, recentLookup_append]
    exact ⟨.inl, fun h => h.resolve_right fun ha => hno ha.1⟩
  past := past_append hA.past hn he

/-- A lookup puts the name into the cache, and is the latest one. -/
theorem JwksHandler.After.lookup (hA : h.After now l) (hjwks : jwks = publishedKeys (l ++ [a]))
    (ha : IsLookup kid a) (hn : now ≤ ended) (he : a.2.ended = ended) :
    JwksHandler.After { h with
      jwks := jwks, recentlyLookedUp := C.cacheSet h.recentlyLookedUp kid ended }
      ended (l ++ [a]) where
  keys := hjwks
  looked kid' t := by
    rw [C.get_cacheSet, recentLookup_append]
    split
    · next hk =>
        subst hk
        rw [decide_eq_true_iff, ← he]
        refine ⟨fun hlt => .inr ⟨ha, hlt⟩, ?_⟩
        rintro (⟨b, hb, -, hlt⟩ | ⟨-, hlt⟩)
        · have hle := hA.past b hb
          omega
        · exact hlt
    · next hk =>
        rw [hA.looked]
        refine ⟨.inl, fun h => h.resolve_right fun ha' => hk ?_⟩
        cases ha'.1.1.symm.trans ha.1
        rfl
  past := past_append hA.past hn he

theorem JwksHandler.recv_get (h : JwksHandler C) (began ended : Int) (fetched : Fetched)
    (waiting : Bool) (kid : String) :
    (∃ jwk, JwksHandler.find h.jwks kid = some jwk ∧
      h.recv began ended fetched waiting (.get kid) =
        (h, ⟨began, ended, false, none, some (.ok jwk), waiting⟩)) ∨
    (JwksHandler.find h.jwks kid = none ∧ C.cacheGet h.recentlyLookedUp kid began = true ∧
      h.recv began ended fetched waiting (.get kid) =
        (h, ⟨began, ended, false, none, some (.error (.invalidClaims
          "'kid' not found and it has been recently looked up")), waiting⟩)) ∨
    (JwksHandler.find h.jwks kid = none ∧ ¬ C.cacheGet h.recentlyLookedUp kid began = true ∧
      h.recv began ended fetched waiting (.get kid) =
        ({ h with
            jwks := (update h.jwksUri h.jwks fetched).1
            recentlyLookedUp := C.cacheSet h.recentlyLookedUp kid ended },
          ⟨began, ended, true, (update h.jwksUri h.jwks fetched).2,
            some (checkAgain (update h.jwksUri h.jwks fetched).1 kid), waiting⟩)) := by
  unfold JwksHandler.recv
  rcases hkey : JwksHandler.find h.jwks kid with - | jwk
  · by_cases hl : C.cacheGet h.recentlyLookedUp kid began = true
    · exact .inr (.inl ⟨rfl, hl, by simp only [hkey, hl, if_true]⟩)
    · exact .inr (.inr ⟨rfl, hl, by simp only [hkey, hl]; rfl⟩)
  · exact .inl ⟨jwk, rfl, by simp only [hkey]⟩

/-- **One message** keeps the state of the handler in step with what has happened, and a caller is
answered by it. -/
theorem JwksHandler.After.recv (hA : h.After now l) (hb : now ≤ began) (he : began ≤ ended)
    (ha : a = ((i, m), (h.recv began ended fetched waiting m).2)) :
    (h.recv began ended fetched waiting m).1.After ended (l ++ [a]) ∧
      ∀ kid, m = .get kid → Answer l kid a := by
  have hn : now ≤ ended := Int.le_trans hb he
  cases m with
  | update =>
      refine ⟨?_, fun kid hm => by cases hm⟩
      have hjwks : (update h.jwksUri h.jwks fetched).1 = publishedKeys (l ++ [a]) := by
        rw [hA.keys]
        apply update_published
        rw [ha, ← hA.keys]
        rfl
      subst ha
      exact hA.keeps h.jwksUri hjwks rfl hn rfl
  | newJwksUri uri =>
      refine ⟨?_, fun kid hm => by cases hm⟩
      subst ha
      refine hA.keeps (some uri) ?_ rfl hn rfl
      rw [publishedKeys_kept rfl]
      exact hA.keys
  | get kid =>
      rcases h.recv_get began ended fetched waiting kid with
        ⟨jwk, hkey, hr⟩ | ⟨hkey, hl, hr⟩ | ⟨hkey, hl, hr⟩
      · -- the key is there
        rw [hr] at ha ⊢
        rw [hA.keys] at hkey
        subst ha
        refine ⟨hA.keeps h.jwksUri ?_ rfl hn rfl, ?_⟩
        · rw [publishedKeys_kept rfl]
          exact hA.keys
        · rintro kid ⟨⟩
          exact .present hkey rfl rfl rfl
      · -- it is not, and was looked up recently
        rw [hr] at ha ⊢
        rw [hA.keys] at hkey
        rw [hA.looked] at hl
        subst ha
        refine ⟨hA.keeps h.jwksUri ?_ rfl hn rfl, ?_⟩
        · rw [publishedKeys_kept rfl]
          exact hA.keys
        · rintro kid ⟨⟩
          exact .refused hkey hl rfl rfl rfl
      · -- it is looked up
        rw [hr] at ha ⊢
        have hjwks : (update h.jwksUri h.jwks fetched).1 = publishedKeys (l ++ [a]) := by
          rw [hA.keys]
          apply update_published
          rw [ha, ← hA.keys]
        rw [hA.looked] at hl
        refine ⟨?_, ?_⟩
        · subst ha
          exact hA.lookup hjwks ⟨rfl, rfl⟩ hn rfl
        · rintro kid ⟨⟩
          rw [hA.keys] at hkey
          rw [hjwks] at ha
          have hbegan : a.2.began = began := by rw [ha]
          have hlookup : a.2.lookup = true := by rw [ha]
          rw [← hbegan] at hl
          have hreply : a.2.reply = some (checkAgain (publishedKeys (l ++ [a])) kid) :=
            congrArg (fun a => a.2.reply) ha
          unfold checkAgain at hreply
          rcases hnew : JwksHandler.find (publishedKeys (l ++ [a])) kid with - | jwk
          · rw [hnew] at hreply
            exact .missing hkey hl hnew hreply hlookup
          · rw [hnew] at hreply
            exact .found hkey hl hnew hreply hlookup

theorem AllAnswered.apart (h : AllAnswered l) {l₁ l₂ l₃ : List JwksServed} {b : JwksServed}
    (hl : l = l₁ ++ a :: l₂ ++ b :: l₃) (ha : IsLookup kid a) (hb : IsLookup kid b) :
    a.2.ended + 300000 ≤ b.2.began := by
  have hmem : a ∈ l₁ ++ a :: l₂ := List.mem_append_right _ List.mem_cons_self
  have hnot : ¬ RecentLookup (l₁ ++ a :: l₂) kid b.2.began := by
    have hlookup := hb.2
    cases h _ b _ kid hl hb.1 with
    | present _ _ hno => rw [hno] at hlookup; cases hlookup
    | refused _ _ _ hno => rw [hno] at hlookup; cases hlookup
    | found _ hrecent => exact hrecent
    | missing _ hrecent => exact hrecent
  have hlt : ¬ b.2.began - a.2.ended < 300000 := fun hlt => hnot ⟨a, hmem, ha, hlt⟩
  omega

end Handler

/-! ### Runs -/

section Runs

variable {C : TimedCache 300000} {now : Int} {P P' : JwksMailbox C}
  {s s' : JwksTask C} {l : List JwksServed}

/-- What holds in every state. -/
structure JwksInv (s : JwksTask C) (l : List JwksServed) : Prop where
  handler : ∀ h, s.handler = some h → h.After s.clock l
  answers : AllAnswered l
  waiting : s.handler = none ↔ ∃ a ∈ l, a.2.waiting = false

theorem jwksInv_init : JwksInv ⟨some (.init C), now, []⟩ [] where
  handler h hh := by
    cases hh
    exact JwksHandler.after_init
  answers l₁ a l₂ kid hl := by
    have hlen := congrArg List.length hl
    simp only [List.length_nil, List.length_append, List.length_cons] at hlen
    omega
  waiting := by
    constructor
    · intro h
      cases h
    · rintro ⟨a, ha, -⟩
      cases ha

theorem JwksInv.env (hI : JwksInv s l) (h : JwksTask.Env s s') : JwksInv s' l := by
  cases h with
  | clock hle =>
      refine ⟨fun h hh => ?_, hI.answers, hI.waiting⟩
      have hA := hI.handler h hh
      exact ⟨hA.keys, hA.looked, fun a ha => Int.le_trans (hA.past a ha) hle⟩
  | giveUp i => exact ⟨hI.handler, hI.answers, hI.waiting⟩

theorem JwksHandler.recv_waiting (h : JwksHandler C) (began ended : Int) (fetched : Fetched)
    (waiting : Bool) (m : JwksMsg) :
    (h.recv began ended fetched waiting m).2.waiting = waiting := by
  cases m with
  | update => rfl
  | newJwksUri uri => rfl
  | get kid =>
      rcases h.recv_get began ended fetched waiting kid with ⟨jwk, -, hr⟩ | ⟨-, -, hr⟩ | ⟨-, -, hr⟩
      · rw [hr]
      · rw [hr]
      · rw [hr]

theorem AllAnswered.append {a : JwksServed} (hl : AllAnswered l)
    (ha : ∀ kid, a.1.2 = .get kid → Answer l kid a) : AllAnswered (l ++ [a]) := by
  intro l₁ b l₂ kid he hb
  rcases List.eq_nil_or_concat l₂ with rfl | ⟨l₂, c, rfl⟩
  · obtain ⟨rfl, hab⟩ := List.append_inj' he rfl
    cases hab
    exact ha kid hb
  · rw [List.concat_eq_append, ← List.cons_append, ← List.append_assoc] at he
    obtain ⟨rfl, -⟩ := List.append_inj' he rfl
    exact hl l₁ b l₂ kid rfl hb

theorem JwksInv.serve {i : ℕ} {m : JwksMsg} {r : Served} {out : List JwksMsg} (hI : JwksInv s l)
    (h : JwksTask.Serve s i m r s' out) :
    JwksInv s' (l ++ [((i, m), r)]) := by
  cases h with
  | @served h _ _ began ended fetched hh hb he hi =>
      obtain ⟨hA, hans⟩ := (hI.handler h hh).recv hb he rfl
      refine ⟨?_, hI.answers.append hans, ?_⟩
      · rintro h' ⟨⟩
        exact hA
      · constructor
        · intro hno
          cases hno
        · rintro ⟨a, ha, hw⟩
          rcases List.mem_append.mp ha with ha | ha
          · have hdead := hI.waiting.mpr ⟨a, ha, hw⟩
            rw [hh] at hdead
            cases hdead
          · obtain rfl := List.mem_singleton.mp ha
            rw [h.recv_waiting] at hw
            cases hw
  | @panicked h _ _ began ended fetched hh hb he hm hi =>
      obtain ⟨-, hans⟩ := (hI.handler h hh).recv hb he rfl
      refine ⟨?_, hI.answers.append hans, ?_⟩
      · rintro h' ⟨⟩
      · refine ⟨fun _ => ⟨_, List.mem_append_right _ (List.mem_singleton_self _), ?_⟩, fun _ => rfl⟩
        exact h.recv_waiting _ _ _ _ _

theorem jwksInv_of_run (h : JwksRun (jwksStart C now) P) : JwksInv P.state P.answered :=
  Mailbox.Run.inv jwksInv_init (fun _ _ _ hI he => hI.env he)
    (fun _ _ _ _ _ _ _ hI _ hs => hI.serve hs) h

/-- **What the key store does**, in every run: every message that was sent is served once and in
order, or waits; and every caller is answered by the keys that the provider has published last, at
its turn, after a lookup if the name was not looked up in the last five minutes. -/
theorem handler_answers (h : JwksRun (jwksStart C now) P) :
    P.sent = P.answered.map Prod.fst ++ (P.current.toList ++ P.queue) ∧
      (P.answered.map fun a => a.1.1).Nodup ∧ AllAnswered P.answered :=
  ⟨h.fifo, h.served_once, (jwksInv_of_run h).answers⟩

/-- **Lookups are five minutes apart.**  No name is looked up at the provider within five minutes
of its last lookup, whoever asks for it, and whatever the provider has answered. -/
theorem lookups_apart (h : JwksRun (jwksStart C now) P) {l₁ l₂ l₃ : List JwksServed}
    {a b : JwksServed} {kid : String} (hl : P.answered = l₁ ++ a :: l₂ ++ b :: l₃)
    (ha : IsLookup kid a) (hb : IsLookup kid b) : a.2.ended + 300000 ≤ b.2.began :=
  (jwksInv_of_run h).answers.apart hl ha hb

theorem JwksTask.Serve.alive {i : ℕ} {m : JwksMsg} {r : Served} {out : List JwksMsg}
    (h : JwksTask.Serve s i m r s' out) : s.handler ≠ none := by
  cases h with
  | served hh => rw [hh]; exact Option.some_ne_none _
  | panicked hh => rw [hh]; exact Option.some_ne_none _

theorem dead_of_run (h : JwksRun P P') (hdead : P.state.handler = none) :
    P'.state.handler = none ∧ P'.sent = P.sent ∧ P'.answered = P.answered := by
  induction h with
  | refl => exact ⟨hdead, rfl, rfl⟩
  | tail hrun hs ih =>
      obtain ⟨hd, hsent, hans⟩ := ih
      cases hs with
      | env he =>
          cases he with
          | clock hle => exact ⟨hd, hsent, hans⟩
          | giveUp i => exact ⟨hd, hsent, hans⟩
      | send hnew hroom hadmits => exact absurd hd hadmits
      | take hidle hq => exact ⟨hd, hsent, hans⟩
      | finish hcur hserve hnew => exact absurd hd hserve.alive

/-- The size of a message: what the task sends itself is smaller. -/
def JwksMsg.size : JwksMsg → ℕ
  | newJwksUri _ => 2
  | _ => 1

theorem JwksMsg.size_sends (m : JwksMsg) : (m.sends.map JwksMsg.size).sum < m.size := by
  cases m with
  | get kid => exact Nat.one_pos
  | update => exact Nat.one_pos
  | newJwksUri uri => exact Nat.lt_succ_self 1

/-- **The task lives until it answers a caller that has stopped waiting.**  Until then it can answer
everybody that waits; from then on nobody is answered any more. -/
theorem handler_alive_iff (h : JwksRun (jwksStart C now) P) :
    (P.state.handler ≠ none ↔ ∀ a ∈ P.answered, a.2.waiting = true) ∧
    (P.state.handler ≠ none → (∀ p ∈ P.current.toList ++ P.queue, p.1 ∉ P.state.gone) →
      ∃ P', JwksRun P P' ∧ P'.sent = P'.answered.map Prod.fst ∧ P.sent <+: P'.sent ∧
        P'.state.handler ≠ none) ∧
    (P.state.handler = none → ∀ P', JwksRun P P' → P'.sent = P.sent ∧
      P'.answered = P.answered) := by
  refine ⟨?_, fun halive hgone => ?_, fun hdead P' h' => (dead_of_run h' hdead).2⟩
  · rw [Ne, (jwksInv_of_run h).waiting, not_exists]
    refine forall_congr' fun a => ?_
    rw [not_and, Bool.not_eq_false]
  · have hserve : ∀ (s : JwksTask C) i m, s.gone = P.state.gone ∧ s.handler ≠ none →
        i ∉ P.state.gone → ∃ r s' out, JwksTask.Serve s i m r s' out ∧
          (s'.gone = P.state.gone ∧ s'.handler ≠ none) ∧
          (out.map JwksMsg.size).sum < m.size := by
      rintro s i m ⟨hg, hs⟩ hi
      obtain ⟨hd, hh⟩ := Option.ne_none_iff_exists'.mp hs
      have hserved : JwksTask.Serve s i m (hd.recv s.clock s.clock none true m).2
          { s with handler := some (hd.recv s.clock s.clock none true m).1, clock := s.clock }
          m.sends :=
        .served hh (Int.le_refl _) (Int.le_refl _) fun _ => hg ▸ hi
      exact ⟨_, _, _, hserved, ⟨hg, fun hno => by cases hno⟩, m.size_sends⟩
    obtain ⟨P', hrun, hcur, hq, -, hA⟩ := Mailbox.Run.drains (T := jwksService C) _ _
      JwksMsg.size hserve ⟨rfl, halive⟩ h.accounted hgone
    exact ⟨P', hrun, Mailbox.Run.all_answered (h.trans hrun) hcur hq, hrun.grows.1, hA⟩

/-- A caller asks for a key while nobody else does, and waits for the answer. -/
theorem exists_ask {h : JwksHandler C} (i : ℕ) (kid : String) (t : Int) (fetched : Fetched)
    (hh : P.state.handler = some h) (hidle : P.current = none) (hq : P.queue = [])
    (hnew : ((P.sent ++ [(i, JwksMsg.get kid)]).map Prod.fst).Nodup) (hi : i ∉ P.state.gone)
    (ht : P.state.clock ≤ t) :
    ∃ P', JwksRun P P' ∧ P'.current = none ∧ P'.queue = [] ∧
      P'.sent = P.sent ++ [(i, .get kid)] ∧
      P'.state = { P.state with
        handler := some (h.recv t t fetched true (.get kid)).1, clock := t } ∧
      P'.answered = P.answered ++ [((i, .get kid), (h.recv t t fetched true (.get kid)).2)] := by
  have hserve : JwksTask.Serve P.state i (.get kid) (h.recv t t fetched true (.get kid)).2
      { P.state with handler := some (h.recv t t fetched true (.get kid)).1, clock := t } [] :=
    .served hh ht (Int.le_refl t) fun _ => hi
  have hadmits : P.state.handler ≠ none := by
    rw [hh]
    exact Option.some_ne_none h
  exact Mailbox.exists_exchange (T := jwksService C) hidle hq hnew hadmits hserve

/-- The names with the times at which they were put there last. -/
def stampedCache : TimedCache 300000 where
  State := String → Option Int
  withLifespan _ := none
  cacheGet s kid now := (s kid).any fun t => now - t < 300000
  cacheSet s kid t := Function.update s kid (some t)
  get_withLifespan _ _ := rfl
  get_cacheSet s kid t kid' now := by
    split
    · next hk => rw [hk, Function.update_self, Option.any_some]
    · next hk => rw [Function.update_of_ne hk]

/-- A name is asked for twice, five minutes apart, and no provider is configured. -/
theorem exists_lookups : ∃ (P : JwksMailbox stampedCache) (a b : JwksServed),
    JwksRun (jwksStart stampedCache 0) P ∧ P.answered = [] ++ a :: [] ++ b :: [] ∧
      IsLookup "kid" a ∧ IsLookup "kid" b ∧ P.state.handler ≠ none ∧ P.current = none ∧
      P.queue = [] := by
  obtain ⟨P₁, h₁, hidle₁, hq₁, hsent₁, hstate₁, hans₁⟩ := exists_ask (P := jwksStart stampedCache 0)
    0 "kid" 0 none rfl rfl rfl (by decide) (by decide) (Int.le_refl 0)
  obtain ⟨P₂, h₂, hidle₂, hq₂, -, hstate₂, hans₂⟩ := exists_ask (P := P₁)
    1 "kid" 300000 none (by rw [hstate₁]) hidle₁ hq₁ (by rw [hsent₁]; decide)
    (by rw [hstate₁]; decide) (by rw [hstate₁]; decide)
  refine ⟨P₂, _, _, h₁.trans h₂, by rw [hans₂, hans₁]; rfl, ⟨rfl, rfl⟩, ⟨rfl, rfl⟩, ?_,
    hidle₂, hq₂⟩
  rw [hstate₂]
  exact Option.some_ne_none _

theorem handler_answers_twice : ∃ P : JwksMailbox stampedCache,
    JwksRun (jwksStart stampedCache 0) P ∧ P.answered.length = 2 ∧
      P.sent = P.answered.map Prod.fst ++ (P.current.toList ++ P.queue) ∧
      (P.answered.map fun a => a.1.1).Nodup ∧ AllAnswered P.answered := by
  obtain ⟨P, a, b, hrun, hans, -⟩ := exists_lookups
  exact ⟨P, hrun, by rw [hans]; rfl, handler_answers hrun⟩

theorem lookups_apart_twice : ∃ (P : JwksMailbox stampedCache) (a b : JwksServed),
    JwksRun (jwksStart stampedCache 0) P ∧ P.answered = [a, b] ∧
      a.2.ended + 300000 ≤ b.2.began := by
  obtain ⟨P, a, b, hrun, hans, ha, hb, -⟩ := exists_lookups
  exact ⟨P, a, b, hrun, hans, lookups_apart hrun hans ha hb⟩

/-- One caller has stopped waiting before its turn: the next one is not answered any more. -/
theorem handler_alive_iff_panicked : ∃ P : JwksMailbox stampedCache,
    JwksRun (jwksStart stampedCache 0) P ∧ P.state.handler = none ∧
      (∃ a ∈ P.answered, a.2.waiting = false) ∧
    ∀ P', JwksRun P P' → P'.sent = P.sent ∧ P'.answered = P.answered := by
  let started : JwksTask stampedCache := ⟨some (.init _), 0, []⟩
  let left : JwksTask stampedCache := { started with gone := [0] }
  have hgone : Mailbox.Step (jwksService _) (jwksStart stampedCache 0) ⟨left, [], [], none, []⟩ :=
    .env (.giveUp 0)
  have hsend : Mailbox.Step (jwksService _) ⟨left, [], [], none, []⟩
      ⟨left, [(0, .get "kid")], [(0, .get "kid")], none, []⟩ :=
    .send (List.nodup_singleton 0) (fun n hn => by cases hn) fun hno => by cases hno
  have htake : Mailbox.Step (jwksService _) ⟨left, [(0, .get "kid")], [(0, .get "kid")], none, []⟩
      ⟨left, [(0, .get "kid")], [], some (0, .get "kid"), []⟩ := .take rfl rfl
  have hserve : JwksTask.Serve left 0 (.get "kid")
      ((JwksHandler.init _).recv 0 0 none false (.get "kid")).2
      { left with handler := none, clock := 0 } (([] : List (ℕ × JwksMsg)).map Prod.snd) :=
    .panicked rfl (Int.le_refl 0) (Int.le_refl 0) rfl (List.mem_singleton_self 0)
  have hfinish := Mailbox.Step.finish (T := jwksService stampedCache)
    (P := ⟨left, [(0, .get "kid")], [], some (0, .get "kid"), []⟩) rfl hserve
    (List.nodup_singleton 0)
  have hrun := Relation.ReflTransGen.refl.tail hgone |>.tail hsend |>.tail htake |>.tail hfinish
  obtain ⟨-, -, hdead⟩ := handler_alive_iff hrun
  exact ⟨_, hrun, rfl, ⟨_, List.mem_singleton_self _, JwksHandler.recv_waiting _ _ _ _ _ _⟩,
    hdead rfl⟩

end Runs

end Rauthy.RauthyClient
