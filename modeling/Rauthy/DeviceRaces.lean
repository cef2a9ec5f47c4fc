/-
Rauthy/DeviceRaces.lean

Concurrent requests for one device code.  Polls and decisions read the whole record, and
later write it back or delete it, with nothing in between that would notice another
writer.  Here is what holds if no request writes a record that another one has accepted or
deleted since it was read: an acceptance stays until the code is redeemed, declined or
expired, a declined code is gone for good, and a code is redeemed at most once.  A poll
deletes the code before it issues the tokens, so one that fails in between loses it; that
is excluded as well.

Main results: `device_code_settled_once`, and `device_code_redeemed_twice` for two polls
that overlap.
-/
import Rauthy.DeviceFlow

namespace Rauthy

open Prog Pool

/-! ### The condition -/

/-- The event settles the code under `k`: an acceptance is saved, or the code is deleted. -/
def settles (k : String) : DeviceEvent → Bool
  | .op _ (.cachePut .deviceCodes k' (.deviceAuthCode c)) _ => k' == k && c.verifiedBy.isSome
  | .op _ (.cacheDel .deviceCodes k') _ => k' == k
  | _ => false

/-- The event is the lookup of request `t` that has found a record under `k`. -/
def isLookup (t : ℕ) (k : String) : DeviceEvent → Bool
  | .op t' (.cacheGet .deviceCodes k') (.ok (some _)) => t' == t && k' == k
  | _ => false

/-- Since request `t` has found a record under `k`, no other request has settled it. -/
def Unsettled (t : ℕ) (k : String) (l : DeviceLog) : Prop :=
  Log.Always (fun e l => settles k e = true → e.tid ≠ t → ∀ f ∈ l, isLookup t k f = false) l

/-- The request has found a record that a user has verified. -/
def FoundVerified (t : ℕ) (l : DeviceLog) : Prop :=
  ∃ k c, FoundCode k c (seenBy t l) ∧ c.verifiedBy.isSome = true

/-- The request is a poll that has found a record under `k` that a user has verified and that
had not expired whenever the poll looked at the clock. -/
def Redeeming (t : ℕ) (k : String) (l : DeviceLog) : Prop :=
  ∃ ip payload c, .start t (.poll ip payload) ∈ l ∧ FoundCode k c (seenBy t l) ∧
    c.verifiedBy.isSome = true ∧ ∀ ms : Int, .op t .now ms ∈ l → ms ≤ c.exp

/-- The poll has deleted such a record. -/
def TookCode (t : ℕ) (l : DeviceLog) : Prop :=
  ∃ l₂ k x l₁, l = l₂ ++ .op t (.cacheDel .deviceCodes k) x :: l₁ ∧ Redeeming t k l₁

/-- A request writes a device code only if no other request has settled it since it was
read, the cache does not refuse the deletion by a poll that redeems it, such a poll does not
fail afterwards, and no two device codes have the same user code. -/
structure Current (data : AppState) (_ : World) (l : DeviceLog) (e : DeviceEvent) : Prop where
  puts : ∀ t k v x, e = .op t (.cachePut .deviceCodes k v) x → Unsettled t k l
  deletes : ∀ t k x, e = .op t (.cacheDel .deviceCodes k) x →
    Unsettled t k l ∧ (FoundVerified t l → x = .ok ())
  ends : ∀ t a, e = .done t a → TookCode t l → ∃ ts, a = .ok (.polled (.ok ts))
  draws : ∀ t s, e = .op t (.getRand 64) s → ∀ t' s', .op t' (.getRand 64) s' ∈ l →
    Text.sliceTo s data.deviceGrantUserCodeLength ≠ Text.sliceTo s' data.deviceGrantUserCodeLength

/-! ### What is promised -/

/-- After the log `l`, the event ends the life of an accepted code under `k`: it is gone from the
cache, it is found to have expired, its user declines it, or a poll redeems it. -/
inductive Ends (l : DeviceLog) (k : String) : DeviceEvent → Prop
  | missed (t : ℕ) : Ends l k (.op t (.cacheGet .deviceCodes k) (.ok none))
  | expired {t : ℕ} {c : DeviceAuthCode} {ms : Int} {x : Except ErrorResponse Unit}
      (hfound : FoundCode k c (seenBy t l)) (hnow : .op t .now ms ∈ l) (hexp : c.exp < ms) :
      Ends l k (.op t (.cacheDel .deviceCodes k) x)
  | declined {t : ℕ} {req : HttpRequest} {payload : DeviceVerifyRequest}
      {x : Except ErrorResponse Unit} (hstart : .start t (.verify req payload) ∈ l)
      (hdecline : payload.deviceAccepted = .decline) :
      Ends l k (.op t (.cacheDel .deviceCodes k) x)
  | redeemed {t : ℕ} {x : Except ErrorResponse Unit} (hredeems : Redeeming t k l) :
      Ends l k (.op t (.cacheDel .deviceCodes k) x)

/-- An event of `l₂` has ended an accepted code under `k`; `l₁` is the log before `l₂`. -/
def Ended (l₂ l₁ : DeviceLog) (k : String) : Prop :=
  ∃ m₂ e m₁, l₂ = m₂ ++ e :: m₁ ∧ Ends (m₁ ++ l₁) k e

/-- The poll `t` with this request has returned tokens. -/
def GotTokens (t : ℕ) (poll : TokenRequest) (l : DeviceLog) : Prop :=
  (∃ ip, .start t (.poll ip poll) ∈ l) ∧ ∃ ts, .done t (.ok (.polled (.ok ts))) ∈ l

/-- What is promised of the device codes. -/
structure Settled (data : AppState) (w : World) (l : DeviceLog) : Prop where
  /-- an acceptance that was answered stays, until the code ends -/
  accepted : ∀ t, .done t (.ok (.verified .accepted)) ∈ l → ∃ l₂ l₁ k c,
    l = l₂ ++ .op t (.cachePut .deviceCodes k (.deviceAuthCode c)) (.ok ()) :: l₁ ∧
    c.verifiedBy.isSome = true ∧
    ((∃ c', w.cache .deviceCodes k = some (.deviceAuthCode c') ∧ c'.deviceCode = c.deviceCode ∧
      c'.verifiedBy.isSome = true) ∨
      Ended l₂ (.op t (.cachePut .deviceCodes k (.deviceAuthCode c)) (.ok ()) :: l₁) k)
  /-- a poll that redeems a code returns tokens -/
  redeems : ∀ t a, TookCode t l → .done t a ∈ l → ∃ ts, a = .ok (.polled (.ok ts))
  /-- a declined code is gone, and no poll gets tokens for it -/
  declined : ∀ t req payload, .start t (.verify req payload) ∈ l →
    .done t (.ok (.verified .declined)) ∈ l → w.cache .deviceCodes payload.userCode = none ∧
    ∀ t' poll d, GotTokens t' poll l → poll.deviceCode = some d →
      Text.sliceTo d data.deviceGrantUserCodeLength ≠ some payload.userCode
  /-- at most one poll gets tokens for a code -/
  once : ∀ t t' poll poll', GotTokens t poll l → GotTokens t' poll' l →
    poll.deviceCode = poll'.deviceCode → t = t'

/-! ### The invariant -/

section Invariant

variable {data : AppState} {w : World} {l : DeviceLog} {t t' : ℕ} {k : String}
  {c c' : DeviceAuthCode} {e : DeviceEvent} {q : DeviceReq}
  {l₂ l₁ : DeviceLog} {x : Except ErrorResponse Unit}
  {tr : List (Seen Op Op.Res)}

/-- What an operation was: that of a request that has started, as the request promises, and
under the condition. -/
def StepOk (data : AppState) (e : DeviceEvent) (l : DeviceLog) : Prop :=
  ∀ t o x, e = .op t o x → ∃ q, .start t q ∈ l ∧ DeviceStep data q (seenBy t l) ⟨o, x⟩ ∧
    ∃ w, Current data w l e

/-- A device code with the user code `k` was drawn and put into the cache. -/
def StartPut (data : AppState) (k : String) (l : DeviceLog) : Prop :=
  ∃ t s v x, .op t (.getRand 64) s ∈ l ∧
    Text.sliceTo s data.deviceGrantUserCodeLength = some k ∧
    .op t (.cachePut .deviceCodes k v) x ∈ l

/-- The request removes what it has found: it is a decline, or a poll of a verified code. -/
def Remover (t : ℕ) (l : DeviceLog) : Prop :=
  (∃ req payload, .start t (.verify req payload) ∈ l ∧ payload.deviceAccepted = .decline) ∨
    (∃ ip payload, .start t (.poll ip payload) ∈ l) ∧ FoundVerified t l

/-- The request has removed the code under `k`. -/
def Removes (t : ℕ) (k : String) (l : DeviceLog) : Prop :=
  ∃ l₂ l₁, l = l₂ ++ .op t (.cacheDel .deviceCodes k) (.ok ()) :: l₁ ∧ Remover t l₁

/-- What holds of the entry `v` under `k`. -/
structure EntryOk (data : AppState) (k : String) (v : Option CacheVal) (l : DeviceLog) : Prop where
  started : v ≠ none → StartPut data k l
  gone : ∀ t, Removes t k l → v = none
  kept : ∀ l₂ l₁ t c,
    l = l₂ ++ .op t (.cachePut .deviceCodes k (.deviceAuthCode c)) (.ok ()) :: l₁ →
    c.verifiedBy.isSome = true →
    (∃ c', v = some (.deviceAuthCode c') ∧ c'.verifiedBy.isSome = true) ∨
      Ended l₂ (.op t (.cachePut .deviceCodes k (.deviceAuthCode c)) (.ok ()) :: l₁) k

structure RaceInv (data : AppState) (w : World) (l : DeviceLog) : Prop where
  base : DeviceInv data w l
  starts : ∀ t q q', .start t q ∈ l → .start t q' ∈ l → q = q'
  steps : Log.Always (StepOk data) l
  redeems : ∀ t a, TookCode t l → .done t a ∈ l → ∃ ts, a = .ok (.polled (.ok ts))
  entries : ∀ k, EntryOk data k (w.cache .deviceCodes k) l
  reads : Log.Always (fun e l => ∀ t k c,
    e = .op t (.cacheGet .deviceCodes k) (.ok (some (.deviceAuthCode c))) →
    EntryOk data k (some (.deviceAuthCode c)) l) l

/-! What only grows with the log -/

theorem FoundCode.cons (h : FoundCode k c (seenBy t l)) : FoundCode k c (seenBy t (e :: l)) :=
  seenBy_cons h

theorem FoundCode.append (h : FoundCode k c (seenBy t l)) (m : DeviceLog) :
    FoundCode k c (seenBy t (m ++ l)) :=
  mem_seenBy.mpr (List.mem_append_right _ (mem_of_seenBy h))

theorem FoundCode.of_split (h : FoundCode k c (seenBy t l₁)) (hl : l = l₂ ++ e :: l₁) :
    FoundCode k c (seenBy t l) := by
  rw [hl]
  exact h.cons.append l₂

theorem StartPut.append (h : StartPut data k l) (m : DeviceLog) : StartPut data k (m ++ l) := by
  obtain ⟨t, s, v, x, h₁, h₂, h₃⟩ := h
  exact ⟨t, s, v, x, List.mem_append_right _ h₁, h₂, List.mem_append_right _ h₃⟩

theorem Ended.append (h : Ended l₂ l₁ k) (m : DeviceLog) :
    Ended (m ++ l₂) l₁ k := by
  obtain ⟨m₂, e, m₁, rfl, hends⟩ := h
  exact ⟨m ++ m₂, e, m₁, by rw [List.append_assoc], hends⟩

theorem tookCode_cons (h : TookCode t (e :: l)) : TookCode t l ∨ ∃ o x, e = .op t o x := by
  obtain ⟨l₂, k, x, l₁, hl, hr⟩ := h
  rcases l₂ with - | ⟨a, l₂⟩
  · obtain ⟨rfl, rfl⟩ := List.cons.inj hl
    exact .inr ⟨_, _, rfl⟩
  · obtain ⟨-, rfl⟩ := List.cons.inj hl
    exact .inl ⟨l₂, k, x, l₁, rfl, hr⟩

theorem removes_cons (h : Removes t k (e :: l)) :
    Removes t k l ∨ e = .op t (.cacheDel .deviceCodes k) (.ok ()) ∧ Remover t l := by
  obtain ⟨l₂, l₁, hl, hr⟩ := h
  rcases l₂ with - | ⟨a, l₂⟩
  · obtain ⟨rfl, rfl⟩ := List.cons.inj hl
    exact .inr ⟨rfl, hr⟩
  · obtain ⟨-, rfl⟩ := List.cons.inj hl
    exact .inl ⟨l₂, l₁, rfl, hr⟩

/-! What the invariant says about a request that has found a record -/

theorem RaceInv.lookup (hI : RaceInv data w l) (hfound : FoundCode k c (seenBy t l)) :
    ∃ l₂ l₁, l = l₂ ++ .op t (.cacheGet .deviceCodes k) (.ok (some (.deviceAuthCode c))) :: l₁ ∧
      EntryOk data k (some (.deviceAuthCode c)) l₁ := by
  obtain ⟨l₂, l₁, hl⟩ := List.append_of_mem (mem_of_seenBy hfound)
  refine ⟨l₂, l₁, hl, ?_⟩
  have hreads := hI.reads
  rw [hl] at hreads
  exact hreads.of_suffix ⟨l₂, rfl⟩ t k c rfl

theorem RaceInv.key (hI : RaceInv data w l) {k' : String} (hfound : FoundCode k c (seenBy t l))
    (hk : Text.sliceTo c.deviceCode data.deviceGrantUserCodeLength = some k') : k = k' := by
  obtain ⟨⟨payload, ms, hs⟩, -⟩ := hI.base.found hfound
  exact Option.some.inj (hs.key.symm.trans hk)

theorem RaceInv.startPut (hI : RaceInv data w l) (hfound : FoundCode k c (seenBy t l)) :
    StartPut data k l := by
  obtain ⟨l₂, l₁, hl, hentry⟩ := hI.lookup hfound
  rw [hl]
  exact ((hentry.started (by simp)).append [_]).append l₂

theorem RaceInv.step (hI : RaceInv data w l) {o : Op} {x : o.Res} (hl : l = l₂ ++ .op t o x :: l₁) :
    ∃ q, .start t q ∈ l₁ ∧
      DeviceStep data q (seenBy t l₁) ⟨o, x⟩ ∧ ∃ w, Current data w l₁ (.op t o x) := by
  have hsteps := hI.steps
  rw [hl] at hsteps
  exact hsteps.of_suffix ⟨l₂, rfl⟩ t o x rfl

theorem Deletes.found (h : Deletes tr q c) : ∃ k, FoundCode k c tr := by
  cases h with
  | expired hfound _ _ => exact ⟨_, hfound⟩
  | declined hfound _ => exact ⟨_, hfound⟩
  | polled hfound _ => exact ⟨_, hfound⟩

theorem Puts.verified (h : Puts data tr q c) (hc : c.verifiedBy.isSome = true) :
    ∃ req payload c₀, q = .verify req payload ∧ FoundCode payload.userCode c₀ tr ∧
      c₀.deviceCode = c.deviceCode := by
  cases h with
  | created _ _ _ _ => cases hc
  | polled _ _ hopen _ _ =>
      simp only [hopen] at hc
      cases hc
  | accepted hfound _ _ _ _ => exact ⟨_, _, _, rfl, hfound, rfl⟩

/-- What a request has deleted under `k`, it has found there. -/
theorem RaceInv.found_of_delete (hI : RaceInv data w l)
    (hl : l = l₂ ++ .op t (.cacheDel .deviceCodes k) x :: l₁) :
    ∃ c, FoundCode k c (seenBy t l₁) := by
  obtain ⟨q, -, ⟨c, hdel, hk⟩, -⟩ := hI.step hl
  obtain ⟨k', hfound⟩ := hdel.found
  obtain rfl := hI.key (hfound.of_split hl) hk
  exact ⟨c, hfound⟩

/-- What a request has accepted under `k`, it has found there; and it is a decision. -/
theorem RaceInv.found_of_accept (hI : RaceInv data w l)
    (hl : l = l₂ ++ .op t (.cachePut .deviceCodes k (.deviceAuthCode c)) x :: l₁)
    (hc : c.verifiedBy.isSome = true) :
    ∃ req payload c₀, .start t (.verify req payload) ∈ l ∧ FoundCode k c₀ (seenBy t l) := by
  obtain ⟨q, hq, ⟨c', hc', hput, hk⟩, -⟩ := hI.step hl
  cases hc'
  obtain ⟨req, payload, c₀, rfl, hfound, hcode⟩ := hput.verified hc
  rw [← hcode] at hk
  obtain rfl := hI.key (hfound.of_split hl) hk
  refine ⟨req, payload, c₀, ?_, hfound.of_split hl⟩
  rw [hl]
  exact List.mem_append_right _ (List.mem_cons_of_mem _ hq)

/-- No other request has settled the code since the lookup. -/
theorem Unsettled.after_lookup (h : Unsettled t k l) {m₂ m₁ : DeviceLog}
    (hl : l = m₂ ++ .op t (.cacheGet .deviceCodes k) (.ok (some (.deviceAuthCode c))) :: m₁)
    (he : e ∈ m₂) (hs : settles k e = true) : e.tid = t := by
  by_contra hne
  obtain ⟨a, b, rfl⟩ := List.append_of_mem he
  unfold Unsettled at h
  rw [hl, List.append_assoc, List.cons_append] at h
  have hlook := h.of_suffix ⟨a, rfl⟩ hs hne
    (.op t (.cacheGet .deviceCodes k) (.ok (some (.deviceAuthCode c)))) (by simp)
  simp [isLookup] at hlook

/-- No other request has removed the code since the lookup. -/
theorem Unsettled.remover_eq (huns : Unsettled t k l) {m₂ m₁ : DeviceLog}
    (hm : l = m₂ ++ .op t (.cacheGet .deviceCodes k) (.ok (some (.deviceAuthCode c))) :: m₁)
    (hentry : EntryOk data k (some (.deviceAuthCode c)) m₁) (hrem : Removes t' k l) : t' = t := by
  obtain ⟨l₂, l₁, hl, hr⟩ := hrem
  rcases Log.split_cases (hl.symm.trans hm) with ⟨he, -⟩ | ⟨he, -⟩ | ⟨r, hr₁⟩
  · cases he
  · exact huns.after_lookup hm he (by simp [settles])
  · have hgone := hentry.gone t' ⟨r, l₁, hr₁, hr⟩
    cases hgone

theorem RaceInv.remover_eq (hI : RaceInv data w l) (hfound : FoundCode k c (seenBy t l))
    (huns : Unsettled t k l) (hrem : Removes t' k l) : t' = t := by
  obtain ⟨m₂, m₁, hm, hentry⟩ := hI.lookup hfound
  exact huns.remover_eq hm hentry hrem

/-- Two device codes with the same user code are the same. -/
theorem RaceInv.draw_eq (hI : RaceInv data w l) {s s' : String}
    (hs : .op t (.getRand 64) s ∈ l) (hs' : .op t' (.getRand 64) s' ∈ l)
    (heq : Text.sliceTo s data.deviceGrantUserCodeLength =
      Text.sliceTo s' data.deviceGrantUserCodeLength) : t = t' ∧ s = s' := by
  obtain ⟨l₂, l₁, hl⟩ := List.append_of_mem hs
  obtain ⟨m₂, m₁, hm⟩ := List.append_of_mem hs'
  rcases Log.split_cases (hl.symm.trans hm) with ⟨he, -⟩ | ⟨-, r, hr⟩ | ⟨r, hr⟩
  · cases he
    exact ⟨rfl, rfl⟩
  · obtain ⟨_, -, -, _, hcur⟩ := hI.step hl
    exact absurd heq (hcur.draws t s rfl t' s' (by rw [hr]; simp))
  · obtain ⟨_, -, -, _, hcur⟩ := hI.step hm
    exact absurd heq.symm (hcur.draws t' s' rfl t s (by rw [hr]; simp))

/-- If a poll has found a record that nobody had verified, the acceptances before it have
ended. -/
theorem RaceInv.ended_of_open (hI : RaceInv data w l) {ip : Option String} {payload : TokenRequest}
    (hpoll : .start t (.poll ip payload) ∈ l) (hfound : FoundCode k c (seenBy t l))
    (hopen : c.verifiedBy = none) (huns : Unsettled t k l)
    (hl : l = l₂ ++ .op t' (.cachePut .deviceCodes k (.deviceAuthCode c')) (.ok ()) :: l₁)
    (hc' : c'.verifiedBy.isSome = true) :
    Ended l₂ (.op t' (.cachePut .deviceCodes k (.deviceAuthCode c')) (.ok ()) :: l₁) k := by
  obtain ⟨m₂, m₁, hm, hentry⟩ := hI.lookup hfound
  rcases Log.split_cases (hl.symm.trans hm) with ⟨he, -⟩ | ⟨he, -⟩ | ⟨r, hr⟩
  · cases he
  · -- the acceptance came after the lookup: that is excluded
    have htt : t' = t := huns.after_lookup hm he (by simp [settles, hc'])
    obtain ⟨req, p, -, hq, -⟩ := hI.found_of_accept hl hc'
    rw [htt] at hq
    cases hI.starts _ _ _ hpoll hq
  · -- it came before: the entry that was found was not verified any more
    rcases hentry.kept r l₁ t' c' hr hc' with ⟨c'', h, hv⟩ | hended
    · cases h
      rw [hopen] at hv
      cases hv
    · rw [hr, ← List.cons_append, ← List.append_assoc] at hm
      rw [List.append_cancel_right (hl.symm.trans hm), List.append_cons]
      exact hended.append _

/-! One step -/

theorem EntryOk.cons {v : Option CacheVal} (h : EntryOk data k v l)
    (hdel : ∀ t, e ≠ .op t (.cacheDel .deviceCodes k) (.ok ()))
    (hput : ∀ t c, e ≠ .op t (.cachePut .deviceCodes k (.deviceAuthCode c)) (.ok ())) :
    EntryOk data k v (e :: l) where
  started hv := (h.started hv).append [e]
  gone t hr := by
    rcases removes_cons hr with hr | ⟨he, -⟩
    · exact h.gone t hr
    · exact absurd he (hdel t)
  kept l₂ l₁ t c hl hc := by
    rcases l₂ with - | ⟨a, l₂⟩
    · exact absurd (List.cons.inj hl).1 (hput t c)
    · obtain ⟨rfl, hl'⟩ := List.cons.inj hl
      exact (h.kept l₂ l₁ t c hl' hc).imp_right fun hended => hended.append [_]

/-- An event after which the entry is gone, and rightly so. -/
theorem entryOk_none (h : ∀ l₂ l₁ t c,
      l = l₂ ++ .op t (.cachePut .deviceCodes k (.deviceAuthCode c)) (.ok ()) :: l₁ →
      c.verifiedBy.isSome = true → Ends l k e ∨
        Ended l₂ (.op t (.cachePut .deviceCodes k (.deviceAuthCode c)) (.ok ()) :: l₁) k)
    (hput : ∀ t c, e ≠ .op t (.cachePut .deviceCodes k (.deviceAuthCode c)) (.ok ())) :
    EntryOk data k none (e :: l) where
  started hv := absurd rfl hv
  gone _ _ := rfl
  kept l₂ l₁ t c hl hc := by
    rcases l₂ with - | ⟨a, l₂⟩
    · exact absurd (List.cons.inj hl).1 (hput t c)
    · obtain ⟨rfl, hl'⟩ := List.cons.inj hl
      rcases h l₂ l₁ t c hl' hc with hends | hended
      · exact .inr ⟨[], e, l₂, rfl, (congrArg (Ends · k e) hl').mp hends⟩
      · exact .inr (hended.append [_])

theorem RaceInv.entry_delete (hI : RaceInv data w l) (hq : .start t q ∈ l)
    (hdel : Deletes (seenBy t l) q c)
    (hk : Text.sliceTo c.deviceCode data.deviceGrantUserCodeLength = some k)
    (huns : Unsettled t k l) :
    EntryOk data k none (.op t (.cacheDel .deviceCodes k) x :: l) := by
  refine entryOk_none (fun l₂ l₁ t' c' hl hc' => ?_) (by simp)
  cases hdel with
  | expired hfound hnow hexp =>
      obtain rfl := hI.key hfound hk
      exact .inl (.expired hfound (mem_of_seenBy hnow) hexp)
  | declined hfound hd => exact .inl (.declined hq hd)
  | polled hfound hp =>
      obtain rfl := hI.key hfound hk
      rcases hv : c.verifiedBy with - | uid
      · exact .inr (hI.ended_of_open hq hfound hv huns hl hc')
      · by_cases hexp : ∃ ms : Int, .op t .now ms ∈ l ∧ c.exp < ms
        · obtain ⟨ms, hnow, hlt⟩ := hexp
          exact .inl (.expired hfound hnow hlt)
        · refine .inl (.redeemed ⟨_, _, c, hq, hfound, by rw [hv]; rfl, fun ms hms => ?_⟩)
          exact not_lt.mp fun hlt => hexp ⟨ms, hms, hlt⟩

theorem RaceInv.not_startPut (hI : RaceInv data w l) {s : String}
    (hrand : ⟨.getRand 64, s⟩ ∈ seenBy t l)
    (hk : Text.sliceTo s data.deviceGrantUserCodeLength = some k)
    (hfirst : ∀ k v x, ⟨.cachePut .deviceCodes k v, x⟩ ∉ seenBy t l) : ¬ StartPut data k l := by
  rintro ⟨t', s', v, x, hs', hk', hput⟩
  obtain ⟨rfl, -⟩ := hI.draw_eq (mem_of_seenBy hrand) hs' (hk.trans hk'.symm)
  exact hfirst k v x (mem_seenBy.mpr hput)

theorem RaceInv.entry_put (hI : RaceInv data w l) (hq : .start t q ∈ l)
    (hput : Puts data (seenBy t l) q c)
    (hk : Text.sliceTo c.deviceCode data.deviceGrantUserCodeLength = some k)
    (huns : Unsettled t k l) :
    EntryOk data k (some (.deviceAuthCode c))
      (.op t (.cachePut .deviceCodes k (.deviceAuthCode c)) x :: l) := by
  -- the entry is verified now, or the acceptances so far have ended
  suffices hsuff : StartPut data k (.op t (.cachePut .deviceCodes k (.deviceAuthCode c)) x :: l) ∧
      (∀ t', ¬ Removes t' k l) ∧ (c.verifiedBy.isSome = true ∨ ∀ l₂ l₁ t' c',
        l = l₂ ++ .op t' (.cachePut .deviceCodes k (.deviceAuthCode c')) (.ok ()) :: l₁ →
        c'.verifiedBy.isSome = true →
        Ended l₂ (.op t' (.cachePut .deviceCodes k (.deviceAuthCode c')) (.ok ()) :: l₁) k) by
    obtain ⟨hstart, hnot, hkept⟩ := hsuff
    refine ⟨fun _ => hstart, fun t' hr => ?_, fun l₂ l₁ t' c' hl hc' => ?_⟩
    · rcases removes_cons hr with hr | ⟨he, -⟩
      · exact absurd hr (hnot t')
      · cases he
    · rcases hkept with hv | hkept
      · exact .inl ⟨c, rfl, hv⟩
      · rcases l₂ with - | ⟨a, l₂⟩
        · cases (List.cons.inj hl).1
          exact .inl ⟨c, rfl, hc'⟩
        · obtain ⟨rfl, hl'⟩ := List.cons.inj hl
          exact .inr ((hkept l₂ l₁ t' c' hl' hc').append [_])
  cases hput with
  | created hnow hrand hclient hfirst =>
      have hno := hI.not_startPut hrand hk hfirst
      refine ⟨⟨t, _, _, x, List.mem_cons_of_mem _ (mem_of_seenBy hrand), hk, List.mem_cons_self⟩,
        fun t' hr => ?_, .inr fun l₂ l₁ t' c' hl hc' => ?_⟩
      · obtain ⟨l₂, l₁, hl, -⟩ := hr
        obtain ⟨c', hfound⟩ := hI.found_of_delete hl
        exact hno (hI.startPut (hfound.of_split hl))
      · obtain ⟨-, -, c₀, -, hfound⟩ := hI.found_of_accept hl hc'
        exact absurd (hI.startPut hfound) hno
  | polled hfound honly hopen lastPoll warnings =>
      obtain rfl := hI.key hfound hk
      refine ⟨(hI.startPut hfound).append [_], fun t' hr => ?_,
        .inr fun l₂ l₁ t' c' hl hc' => hI.ended_of_open hq hfound hopen huns hl hc'⟩
      -- a poll of an open code is no remover
      obtain rfl := hI.remover_eq hfound huns hr
      obtain ⟨l₂, l₁, hl, hr⟩ := hr
      rcases hr with ⟨req, payload, hs, -⟩ | ⟨-, k', c', hf, hv⟩
      · have hs' : .start t' (.verify req payload) ∈ l := by
          rw [hl]
          exact List.mem_append_right _ (List.mem_cons_of_mem _ hs)
        cases hI.starts _ _ _ hq hs'
      · rw [honly k' c' (hf.of_split hl), hopen] at hv
        cases hv
  | accepted hfound haccept hsession hstate huid =>
      obtain rfl := hI.key hfound hk
      refine ⟨(hI.startPut hfound).append [_], fun t' hr => ?_, .inl rfl⟩
      obtain rfl := hI.remover_eq hfound huns hr
      obtain ⟨l₂, l₁, hl, hr⟩ := hr
      have hmem : ∀ {q'}, .start t' q' ∈ l₁ → .start t' q' ∈ l := by
        intro q' h
        rw [hl]
        exact List.mem_append_right _ (List.mem_cons_of_mem _ h)
      rcases hr with ⟨req, payload, hs, hd⟩ | ⟨⟨ip, payload, hs⟩, -⟩
      · cases hI.starts _ _ _ hq (hmem hs)
        rw [haccept] at hd
        cases hd
      · cases hI.starts _ _ _ hq (hmem hs)

/-- **One operation keeps the entries.** -/
theorem RaceInv.entry_op (hI : RaceInv data w l) {w' : World} {o : Op} {x : o.Res}
    (hq : .start t q ∈ l) (hx : sem o w x w') (hstep : DeviceStep data q (seenBy t l) ⟨o, x⟩)
    (hcur : Current data w l (.op t o x)) (k : String) :
    EntryOk data k (w'.cache .deviceCodes k) (.op t o x :: l) := by
  by_cases hput : ∃ v, o = .cachePut .deviceCodes k v
  · obtain ⟨v, rfl⟩ := hput
    obtain ⟨c, rfl, hputs, hk⟩ := hstep
    have hnew := hI.entry_put (x := x) hq hputs hk (hcur.puts t k _ x rfl)
    have hsome : (w.put .deviceCodes k (.deviceAuthCode c)).cache .deviceCodes k =
        some (.deviceAuthCode c) := by
      simp [World.put_cache]
    rcases sem_cachePut.mp hx with ⟨-, rfl⟩ | ⟨e, rfl, rfl | rfl⟩
    · rw [hsome]
      exact hnew
    · exact (hI.entries k).cons (by simp) (by simp)
    · rw [hsome]
      exact hnew
  by_cases hdel : o = .cacheDel .deviceCodes k
  · subst hdel
    obtain ⟨c, hdels, hk⟩ := hstep
    have hnew := hI.entry_delete (x := x) hq hdels hk (hcur.deletes t k x rfl).1
    have hnone : (w.del .deviceCodes k).cache .deviceCodes k = none := by
      simp [World.del_cache]
    rcases sem_cacheDel.mp hx with ⟨-, rfl⟩ | ⟨e, rfl, rfl | rfl⟩
    · rw [hnone]
      exact hnew
    · exact (hI.entries k).cons (by simp) (by simp)
    · rw [hnone]
      exact hnew
  have hcons : ∀ {v}, EntryOk data k v l → EntryOk data k v (.op t o x :: l) := by
    intro v h
    refine h.cons ?_ ?_
    · rintro t' ⟨⟩
      exact hdel rfl
    · rintro t' c ⟨⟩
      exact hput ⟨_, rfl⟩
  rcases hw : w'.cache .deviceCodes k with - | v
  · rcases hw₀ : w.cache .deviceCodes k with - | v
    · have h := hI.entries k
      rw [hw₀] at h
      exact hcons h
    · -- only a lookup that misses drops an entry without deleting it
      have hmiss : o = .cacheGet .deviceCodes k ∧ x ≍ (.ok none : Except ErrorResponse
          (Option CacheVal)) := by
        by_contra hno
        have hkeep := sem_cache_kept hx hw₀ (fun v h => hput ⟨v, h⟩) hdel hno
        rw [hw] at hkeep
        cases hkeep
      obtain ⟨rfl, hx'⟩ := hmiss
      cases eq_of_heq hx'
      exact entryOk_none (fun _ _ _ _ _ _ => .inl (.missed t)) (by simp)
  · rcases sem_cache hx hw with hold | rfl
    · have h := hI.entries k
      rw [hold] at h
      exact hcons h
    · exact absurd ⟨v, rfl⟩ hput

theorem RaceInv.entry_event (hI : RaceInv data w l) (he : ∀ t o x, e ≠ .op t o x) (k : String) :
    EntryOk data k (w.cache .deviceCodes k) (e :: l) :=
  (hI.entries k).cons (fun _ => he _ _ _) (fun _ _ => he _ _ _)

/-- **The invariant of every run.** -/
theorem raceInv_of_run {w₀ : World} (hw : Keyed w₀) {P : DevicePool}
    (h : Run (DeviceReq.prog data) sem (Current data) (init w₀) P) :
    RaceInv data P.world P.log := by
  have hstarts : ∀ {l : DeviceLog} {e : DeviceEvent}, (∀ t q, e ≠ .start t q) →
      (∀ t q q', .start t q ∈ l → .start t q' ∈ l → q = q') →
      ∀ t q q', .start t q ∈ e :: l → .start t q' ∈ e :: l → q = q' := by
    intro l e he h t q q' hq hq'
    exact h t q q' ((List.mem_cons.mp hq).resolve_left (Ne.symm (he t q)))
      ((List.mem_cons.mp hq').resolve_left (Ne.symm (he t q')))
  refine (Run.inv_of_seen (A := fun _ => Op.Possible) (G := DeviceStep data)
    (F := fun q r tr => ∀ a, r = .ok a → DevicePost data tr q a) (I := RaceInv data)
    (fun q => sees_deviceReq q) (fun w l t q o x w' _ _ hx _ => ⟨w, w', hx⟩) ?_ ?_ ?_ ?_ h).1
  · refine ⟨.init hw, by simp, trivial, by simp, fun k => ?_, trivial⟩
    rw [hw.codes k]
    exact ⟨fun h => absurd rfl h, fun _ _ => rfl, fun l₂ l₁ t c hl => by simp at hl⟩
  · intro w l t q hI hfresh _
    refine ⟨hI.base.start, fun t' q₁ q₂ h₁ h₂ => ?_, ⟨fun _ _ _ he => (by cases he), hI.steps⟩,
      fun t' a ht ha => ?_, hI.entry_event (by simp), ⟨fun _ _ _ he => (by cases he), hI.reads⟩⟩
    · rcases List.mem_cons.mp h₁ with he₁ | h₁'
      · cases he₁
        exact ((start_mem_fresh hfresh).mp h₂).symm
      · rcases List.mem_cons.mp h₂ with he₂ | h₂'
        · cases he₂
          exact (start_mem_fresh hfresh).mp h₁
        · exact hI.starts t' q₁ q₂ h₁' h₂'
    · exact hI.redeems t' a ((tookCode_cons ht).resolve_right (by simp))
        ((List.mem_cons.mp ha).resolve_left (by simp))
  · intro w l t q o x w' hI hq hrun hx hcur hstep
    refine ⟨hI.base.op hq hrun hx hstep, hstarts (by simp) hI.starts, ⟨?_, hI.steps⟩,
      fun t' a ht ha => ?_, hI.entry_op hq hx hstep hcur, ⟨?_, hI.reads⟩⟩
    · rintro t' o' x' ⟨⟩
      exact ⟨q, hq, hstep, w, hcur⟩
    · have ha := (List.mem_cons.mp ha).resolve_left (by simp)
      rcases tookCode_cons ht with ht | ⟨_, _, ⟨⟩⟩
      · exact hI.redeems t' a ht ha
      · exact absurd ha (hrun.2 a)
    · rintro t' k c ⟨⟩
      rcases sem_cacheGet.mp hx with ⟨hv, -⟩ | ⟨hv, -⟩ | ⟨e, he, -⟩
      · have hentry := hI.entries k
        rw [← Except.ok.inj hv] at hentry
        exact hentry
      · cases hv
      · cases he
  · intro w l t q r hI hq hrun hcur hpost
    refine ⟨hI.base.done hq hpost, hstarts (by simp) hI.starts, ⟨fun _ _ _ he => (by cases he),
      hI.steps⟩, fun t' a ht ha => ?_, hI.entry_event (by simp),
      ⟨fun _ _ _ he => (by cases he), hI.reads⟩⟩
    have ht := (tookCode_cons ht).resolve_right (by simp)
    rcases List.mem_cons.mp ha with he | ha
    · cases he
      exact hcur.ends _ _ rfl ht
    · exact hI.redeems t' a ht ha

/-! ### The promises -/

/-- A request that has removed a code was the first to do so. -/
theorem RaceInv.removes_first (hI : RaceInv data w l) {b₂ b₁ : DeviceLog}
    (hb : l = b₂ ++ .op t' (.cacheDel .deviceCodes k) x :: b₁) (h : Removes t k b₁) : t = t' := by
  obtain ⟨c, hfound⟩ := hI.found_of_delete hb
  obtain ⟨_, -, -, _, hcur⟩ := hI.step hb
  obtain ⟨m₂, m₁, hm⟩ := List.append_of_mem (mem_of_seenBy hfound)
  have hreads := hI.reads
  rw [hb, hm, ← List.cons_append, ← List.append_assoc] at hreads
  exact (hcur.deletes t' k x rfl).1.remover_eq hm (hreads.of_suffix ⟨_, rfl⟩ t' k c rfl) h

theorem RaceInv.removes_unique (hI : RaceInv data w l) (h : Removes t k l) (h' : Removes t' k l) :
    t = t' := by
  obtain ⟨a₂, a₁, ha, hr⟩ := h
  obtain ⟨b₂, b₁, hb, hr'⟩ := h'
  rcases Log.split_cases (ha.symm.trans hb) with ⟨he, -⟩ | ⟨-, r, hlater⟩ | ⟨r, hlater⟩
  · cases he
    rfl
  · exact (hI.removes_first ha ⟨r, b₁, hlater, hr'⟩).symm
  · exact hI.removes_first hb ⟨r, a₁, hlater, hr⟩

theorem RaceInv.removes_of_tokens (hI : RaceInv data w l) {poll : TokenRequest} {d : String}
    (h : GotTokens t poll l) (hd : poll.deviceCode = some d) :
    ∃ k, Text.sliceTo d data.deviceGrantUserCodeLength = some k ∧ Removes t k l := by
  obtain ⟨⟨ip, hstart⟩, ts, hdone⟩ := h
  obtain ⟨q, hq, hpost⟩ := hI.base.answers t _ hdone
  obtain rfl := hI.starts _ _ _ hstart hq
  obtain ⟨k₀, c, uid, ms, hr⟩ := hpost
  obtain rfl : d = c.deviceCode := Option.some.inj (hd.symm.trans hr.deviceCode)
  obtain ⟨k, x, hk, hdel⟩ := hr.deleted
  obtain ⟨tr, htr⟩ := hr.lookup
  -- the lookup comes first, so the deletion comes after it
  have hmem : ⟨.cacheDel .deviceCodes k, x⟩ ∈ tr := by
    rw [← htr] at hdel
    simpa using hdel
  obtain ⟨tr₂, tr₁, rfl⟩ := List.append_of_mem hmem
  rw [List.append_assoc, List.cons_append] at htr
  obtain ⟨l₂, l₁, hl, -, hseen⟩ := split_of_seenBy htr.symm
  have hverified : FoundVerified t l₁ := by
    refine ⟨k₀, c, ?_, by rw [hr.verified]; rfl⟩
    rw [FoundCode, hseen]
    simp
  obtain ⟨q', hq', -, _, hcur⟩ := hI.step hl
  have hq'' : .start t q' ∈ l := by
    rw [hl]
    exact List.mem_append_right _ (List.mem_cons_of_mem _ hq')
  obtain rfl := hI.starts _ _ _ hq hq''
  refine ⟨k, hk, l₂, l₁, ?_, .inr ⟨⟨ip, poll, hq'⟩, hverified⟩⟩
  rw [← (hcur.deletes t k x rfl).2 hverified]
  exact hl

theorem RaceInv.accepted (hI : RaceInv data w l) (hdone : .done t (.ok (.verified .accepted)) ∈ l) :
    ∃ l₂ l₁ k c,
      l = l₂ ++ .op t (.cachePut .deviceCodes k (.deviceAuthCode c)) (.ok ()) :: l₁ ∧
      c.verifiedBy.isSome = true ∧
      ((∃ c', w.cache .deviceCodes k = some (.deviceAuthCode c') ∧ c'.deviceCode = c.deviceCode ∧
        c'.verifiedBy.isSome = true) ∨
        Ended l₂ (.op t (.cachePut .deviceCodes k (.deviceAuthCode c)) (.ok ()) :: l₁) k) := by
  obtain ⟨q, hq, hpost⟩ := hI.base.answers t _ hdone
  cases q with
  | start req payload => exact hpost.elim
  | poll ip payload => exact hpost.elim
  | verify req payload =>
      obtain ⟨-, k, c, uid, hfound, hk, hput⟩ := hpost
      obtain ⟨l₂, l₁, hl⟩ := List.append_of_mem (mem_of_seenBy hput)
      refine ⟨l₂, l₁, k, _, hl, rfl, ?_⟩
      rcases (hI.entries k).kept l₂ l₁ t _ hl rfl with ⟨c', hc', hv⟩ | hends
      · refine .inl ⟨c', hc', ?_, hv⟩
        -- both records were drawn, and have the same user code
        obtain ⟨⟨_, _, hs⟩, -⟩ := hI.base.found hfound
        obtain ⟨⟨_, _, hs'⟩, -⟩ := hI.base.codes k c' hc'
        obtain ⟨t₁, _, -, -, hdraw⟩ := hs.request
        obtain ⟨t₂, _, -, -, hdraw'⟩ := hs'.request
        exact (hI.draw_eq hdraw' hdraw (hs'.key.trans hk.symm)).2
      · exact .inr hends

theorem RaceInv.removes_of_decline (hI : RaceInv data w l) {req : HttpRequest}
    {payload : DeviceVerifyRequest} (hstart : .start t (.verify req payload) ∈ l)
    (hdone : .done t (.ok (.verified .declined)) ∈ l) : Removes t payload.userCode l := by
  obtain ⟨q, hq, hpost⟩ := hI.base.answers t _ hdone
  obtain rfl := hI.starts _ _ _ hstart hq
  obtain ⟨hd, k, c, hfound, hk, hdel⟩ := hpost
  obtain rfl := hI.key hfound hk
  obtain ⟨l₂, l₁, hl⟩ := List.append_of_mem (mem_of_seenBy hdel)
  obtain ⟨q', hq', -, -⟩ := hI.step hl
  have hq'' : .start t q' ∈ l := by
    rw [hl]
    exact List.mem_append_right _ (List.mem_cons_of_mem _ hq')
  obtain rfl := hI.starts _ _ _ hq hq''
  exact ⟨l₂, l₁, hl, .inl ⟨req, payload, hq', hd⟩⟩

/-- **A device code is settled once.**  In any interleaving in which no request writes a
device code that another one has accepted or deleted since it was read, and no poll fails after
it has deleted an accepted code: acceptances stay until the code ends, a poll that ends it by
redeeming it gets its tokens, declined codes are gone, and at most one poll gets tokens. -/
theorem device_code_settled_once {w₀ : World} (hw : Keyed w₀) {P : DevicePool}
    (h : Run (DeviceReq.prog data) sem (Current data) (init w₀) P) :
    Settled data P.world P.log := by
  have hI := raceInv_of_run hw h
  refine ⟨fun t hdone => hI.accepted hdone, hI.redeems, ?_, ?_⟩
  · intro t req payload hstart hdone
    have hrem := hI.removes_of_decline hstart hdone
    refine ⟨(hI.entries _).gone t hrem, fun t' poll d htok hd hk => ?_⟩
    obtain ⟨k, hk', hrem'⟩ := hI.removes_of_tokens htok hd
    obtain rfl : k = payload.userCode := Option.some.inj (hk'.symm.trans hk)
    obtain rfl := hI.removes_unique hrem hrem'
    obtain ⟨⟨ip, hpoll⟩, -⟩ := htok
    cases hI.starts _ _ _ hstart hpoll
  · intro t t' poll poll' h₁ h₂ heq
    obtain ⟨-, ts, hdone⟩ := id h₁
    obtain ⟨q, hq, hpost⟩ := hI.base.answers t _ hdone
    obtain ⟨⟨ip, hstart⟩, -⟩ := id h₁
    obtain rfl := hI.starts _ _ _ hstart hq
    obtain ⟨_, c, _, _, hr⟩ := hpost
    obtain ⟨k, hk, hrem⟩ := hI.removes_of_tokens h₁ hr.deviceCode
    obtain ⟨k', hk', hrem'⟩ := hI.removes_of_tokens h₂ (heq.symm.trans hr.deviceCode)
    obtain rfl : k = k' := Option.some.inj (hk.symm.trans hk')
    exact hI.removes_unique hrem hrem'

end Invariant

/-! ### Alice's television polls twice -/

/-- `Unsettled`, as a test of a log. -/
def unsettled (t : ℕ) (k : String) : DeviceLog → Bool
  | [] => true
  | e :: l => (!settles k e || e.tid == t || l.all fun f => !isLookup t k f) && unsettled t k l

theorem unsettled_of_test {t : ℕ} {k : String} {l : DeviceLog} (h : unsettled t k l = true) :
    Unsettled t k l := by
  induction l with
  | nil => trivial
  | cons e l ih =>
      obtain ⟨h₁, h₂⟩ := Bool.and_eq_true_iff.mp h
      refine ⟨fun hs hne f hf => ?_, ih h₂⟩
      simp only [hs, Bool.not_true, Bool.false_or, Bool.or_eq_true, beq_iff_eq, hne, false_or,
        List.all_eq_true] at h₁
      simpa using h₁ f hf

/-- `Current`, as a test of one event. -/
def current (data : AppState) (_ : World) (l : DeviceLog) : DeviceEvent → Bool
  | .op t (.cachePut .deviceCodes k _) _ => unsettled t k l
  | .op t (.cacheDel .deviceCodes k) x => unsettled t k l && decide (x = .ok ())
  | .done t a => (match a with | .ok (.polled (.ok _)) => true | _ => false) || l.all fun
      | .op t' (.cacheDel .deviceCodes _) _ => t' != t
      | _ => true
  | .op _ (.getRand _) s => l.all fun
      | .op _ (.getRand _) s' => Text.sliceTo s data.deviceGrantUserCodeLength !=
          Text.sliceTo s' data.deviceGrantUserCodeLength
      | _ => true
  | _ => true

theorem current_of_test {data : AppState} {w : World} {l : DeviceLog} {e : DeviceEvent}
    (h : current data w l e = true) : Current data w l e where
  puts := by
    rintro t k v x rfl
    exact unsettled_of_test h
  deletes := by
    rintro t k x rfl
    obtain ⟨h₁, h₂⟩ := Bool.and_eq_true_iff.mp h
    exact ⟨unsettled_of_test h₁, fun _ => of_decide_eq_true h₂⟩
  ends := by
    rintro t a rfl ⟨l₂, k, x, l₁, rfl, -⟩
    rcases Bool.or_eq_true_iff.mp h with htokens | hall
    · split at htokens
      · exact ⟨_, rfl⟩
      · cases htokens
    · have hdel := List.all_eq_true.mp hall (.op t (.cacheDel .deviceCodes k) x) (by simp)
      simp at hdel
  draws := by
    rintro t s rfl t' s' hmem
    simpa using List.all_eq_true.mp h _ hmem

theorem device_code_settled_once_alice :
    ∃ P, Run (DeviceReq.prog sampleState) sem (Current sampleState) (init deviceWorld) P ∧
      GotTokens 2 pollRequest P.log ∧ Settled sampleState P.world P.log := by
  obtain ⟨P, hrun, hlog⟩ := exists_run_of_moves (DeviceReq.prog sampleState) Op.run
    (current sampleState) deviceWorld
    (startMoves 0 ++ decideMoves 1 .accept ++ [.op 1 .ok, .done 1] ++ lookupMoves 2 106000 ++
      issueMoves 2 106000 "abcdefghijklmnopqrstuvwx")
    (fun P => decide (Log.startOf 2 P.log = some (.poll none pollRequest) ∧
      Log.doneOf 2 P.log = some (.ok (.polled (.ok codeTokens)))))
    (by decide +kernel) (fun _ _ _ h => current_of_test h)
  obtain ⟨hs, hd⟩ := of_decide_eq_true hlog
  exact ⟨P, hrun, ⟨⟨none, Log.mem_of_startOf hs⟩, codeTokens, Log.mem_of_doneOf hd⟩,
    device_code_settled_once keyed_deviceWorld hrun⟩

/-- Both polls find the code before one of them deletes it, and both get tokens. -/
theorem device_code_redeemed_twice :
    ¬ ∀ (data : AppState) (w₀ : World) (P : DevicePool), Keyed w₀ →
      Run (DeviceReq.prog data) sem (fun _ _ _ => True) (init w₀) P →
      Settled data P.world P.log := by
  intro h
  obtain ⟨P, hrun, hlog⟩ := exists_run_of_moves (C := fun _ _ _ => True)
    (DeviceReq.prog sampleState) Op.run (fun _ _ _ => true) deviceWorld
    (startMoves 0 ++ decideMoves 1 .accept ++ [.op 1 .ok, .done 1] ++ lookupMoves 2 106000 ++
      lookupMoves 3 106000 ++ issueMoves 2 106000 "abcdefghijklmnopqrstuvwx" ++
      issueMoves 3 106000 "bcdefghijklmnopqrstuvwxy")
    (fun P => decide (Log.startOf 2 P.log = some (.poll none pollRequest) ∧
      Log.startOf 3 P.log = some (.poll none pollRequest) ∧
      Log.doneOf 2 P.log = some (.ok (.polled (.ok codeTokens))) ∧
      Log.doneOf 3 P.log = some (.ok (.polled (.ok codeTokens)))))
    (by decide +kernel) (fun _ _ _ _ => trivial)
  obtain ⟨hs₂, hs₃, hd₂, hd₃⟩ := of_decide_eq_true hlog
  have h₂ : GotTokens 2 pollRequest P.log :=
    ⟨⟨none, Log.mem_of_startOf hs₂⟩, codeTokens, Log.mem_of_doneOf hd₂⟩
  have h₃ : GotTokens 3 pollRequest P.log :=
    ⟨⟨none, Log.mem_of_startOf hs₃⟩, codeTokens, Log.mem_of_doneOf hd₃⟩
  exact absurd ((h sampleState deviceWorld P keyed_deviceWorld hrun).once 2 3 _ _ h₂ h₃ rfl)
    (by decide)

end Rauthy
