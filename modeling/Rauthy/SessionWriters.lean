/-
Rauthy/SessionWriters.lean

Writers of sessions (the middleware, `set_mfa` and the code grant) in any interleaving
with revocations (`invalidate`, `invalidate_for_user`, `delete_by_user`).

A writer reads the whole session, changes a field and writes all of it back, to the
table and to the cache.  So a writer that has read the session before it is revoked
writes the live session again.  What is missing is exclusion: a revocation must not
overlap with another request for the same session.

Main results:
  * `revoked_not_found_valid`: with that exclusion, a revoked session is not found as
    valid in any later second;
  * `revoked_session_revived`: without, it is.
-/
import Rauthy.Auth
import Rauthy.Principal
import Rauthy.SessionStore

namespace Rauthy

open Prog Pool

variable {t : ℕ} {q : SessionReq} {l : SessionLog} {w : World}
  {s : World × SessionLog}

/-! ### Requests -/

inductive SessionReq where
  /-- the middleware, for the session of the cookie -/
  | middleware (req : HttpRequest)
  /-- find the session and ask whether it is valid -/
  | check (id : String) (timeout : Int) (ip : Option String)
  /-- `Session::set_mfa`, as `authorize` calls it -/
  | setMfa (id : String) (value : Bool)
  /-- the session update of `grant_type_code` -/
  | codeUpdate (code : AuthCode) (user : User)
  | invalidate (s : Session)
  | invalidateForUser (uid : String)
  | deleteByUser (uid : String)
  deriving DecidableEq

namespace SessionReq

/-- What the request runs; it answers whether it has found a valid session. -/
def prog (data : AppState) : SessionReq → M ErrorResponse Bool
  | middleware req => do
      let session ← getSessionFromCookie data req
      return session.isSome
  | check id timeout ip => do
      let s ← Session.find id
      s.isValid timeout ip
  | setMfa id value => do
      let s ← Session.find id
      let _ ← s.setMfa value
      return false
  | codeUpdate code user => do
      updateCodeSession code user
      return false
  | invalidate s => do
      let _ ← s.invalidate
      return false
  | invalidateForUser uid => do
      Session.invalidateForUser uid
      return false
  | deleteByUser uid => do
      Session.deleteByUser uid
      return false

/-- The session that the request is for, as far as it is known when it starts. -/
def target : SessionReq → Option String
  | middleware req => req.sessionCookie
  | check id _ _ => some id
  | setMfa id _ => some id
  | codeUpdate code _ => code.sessionId
  | invalidate s => some s.id
  | invalidateForUser _ => none
  | deleteByUser _ => none

/-- The user whose sessions the request revokes. -/
def user : SessionReq → Option String
  | invalidateForUser uid => some uid
  | deleteByUser uid => some uid
  | _ => none

/-- The request looks at the time to tell whether its session is valid. -/
def Checks : SessionReq → Prop
  | middleware _ => True
  | check _ _ _ => True
  | _ => False

end SessionReq

abbrev SessionOutcome := Except (Fault ErrorResponse) Bool

abbrev SessionEvent := Event SessionReq Op Op.Res SessionOutcome

abbrev SessionLog := Log SessionReq Op Op.Res SessionOutcome

/-! ### What is promised -/

/-- Request `t` revokes the sessions of a user, and has read this one among them. -/
def Picks (t : ℕ) (id : String) (l : SessionLog) : Prop :=
  ∃ q uid p rows r, .start t q ∈ l ∧ q.user = some uid ∧
    .op t (.select .sessions p) (.ok rows) ∈ l ∧ r ∈ rows ∧ r.userId = some uid ∧ r.id = id

/-- Request `t` revokes the session. -/
def Revokes (t : ℕ) (id : String) (l : SessionLog) : Prop :=
  (∃ s, .start t (.invalidate s) ∈ l ∧ s.id = id) ∨ Picks t id l

/-- Request `t` reads, writes or revokes the session. -/
def Names (t : ℕ) (id : String) (l : SessionLog) : Prop :=
  (∃ q, .start t q ∈ l ∧ q.target = some id) ∨ Picks t id l

/-- A revocation of the session has completed. -/
def RevokedIn (id : String) (l : SessionLog) : Prop :=
  ∃ t a, Revokes t id l ∧ .done t (.ok a) ∈ l

/-- A revocation of the session has read the clock, in the second `T`. -/
def Stamp (id : String) (T : Int) (l : SessionLog) : Prop :=
  ∃ t, ∃ ms : Int, Revokes t id l ∧ .op t .now ms ∈ l ∧ T = ms / 1000

/-- The answer is not that a revoked session is valid. -/
def NoneRevived (e : SessionEvent) (l : SessionLog) : Prop :=
  ∀ t q id, e = .done t (.ok true) → .start t q ∈ l → q.target = some id → ¬ RevokedIn id l

/-- Whether a session is valid is asked in a later second than its revocations have read
the clock. -/
def ChecksLater (_ : World) (l : SessionLog) (e : SessionEvent) : Prop :=
  ∀ t q id (ms : Int), e = .op t .now ms → .start t q ∈ l → q.Checks → q.target = some id →
    ∀ T, Stamp id T l → T < ms / 1000

/-- A revocation overlaps with no other request for the same session, `invalidate`
finds no live entry in the cache, and sessions are checked later. -/
structure RevokesAlone (w : World) (l : SessionLog) (e : SessionEvent) : Prop where
  start : ∀ t q id, e = .start t q → q.target = some id →
    ∀ t', Log.Running t' l → ¬ Revokes t' id l
  revoke : ∀ t s, e = .start t (.invalidate s) → ∀ t', Log.Running t' l → ¬ Names t' s.id l
  pick : ∀ t q uid p rows r, e = .op t (.select .sessions p) (.ok rows) → .start t q ∈ l →
    q.user = some uid → r ∈ rows → r.userId = some uid →
    ∀ t', t' ≠ t → Log.Running t' l → ¬ Names t' r.id l
  cached : ∀ t s (ms : Int), e = .op t .now ms → .start t (.invalidate s) ∈ l →
    ∀ s', w.cache .sessions (Session.cacheIdx s.id) = some (.session s') → s'.exp ≤ ms / 1000
  later : ChecksLater w l e

/-! ### The log -/

section Log

variable {t t' : ℕ} {id : String} {l l' : SessionLog}
  {o : Op} {a : SessionOutcome}
  {x : o.Res}

theorem Revokes.names (h : Revokes t id l) : Names t id l := by
  rcases h with ⟨s, hs, rfl⟩ | h
  · exact .inl ⟨_, hs, rfl⟩
  · exact .inr h

theorem Picks.mono (h : Picks t id l) (hl : ∀ e ∈ l, e ∈ l') : Picks t id l' := by
  obtain ⟨q, uid, p, rows, r, hq, hu, hs, hr⟩ := h
  exact ⟨q, uid, p, rows, r, hl _ hq, hu, hl _ hs, hr⟩

theorem Revokes.mono (h : Revokes t id l) (hl : ∀ e ∈ l, e ∈ l') : Revokes t id l' := by
  rcases h with ⟨s, hs, hid⟩ | h
  · exact .inl ⟨s, hl _ hs, hid⟩
  · exact .inr (h.mono hl)

theorem Names.mono (h : Names t id l) (hl : ∀ e ∈ l, e ∈ l') : Names t id l' := by
  rcases h with ⟨q, hq, hid⟩ | h
  · exact .inl ⟨q, hl _ hq, hid⟩
  · exact .inr (h.mono hl)

theorem Stamp.mono {T : Int} (h : Stamp id T l) (hl : ∀ e ∈ l, e ∈ l') : Stamp id T l' := by
  obtain ⟨t, ms, hr, hms, hT⟩ := h
  exact ⟨t, ms, hr.mono hl, hl _ hms, hT⟩

/-- An operation makes its request pick a session only if it reads its row. -/
theorem picks_op (h : Picks t' id (.op t o x :: l)) :
    Picks t' id l ∨ t' = t ∧ ∃ q uid p rows r, .start t q ∈ l ∧ q.user = some uid ∧
      (.op t o x : SessionEvent) = .op t (.select .sessions p) (.ok rows) ∧ r ∈ rows ∧
      r.userId = some uid ∧ r.id = id := by
  obtain ⟨q, uid, p, rows, r, hstart, hu, hsel, hr⟩ := h
  have hq : .start t' q ∈ l := (List.mem_cons.mp hstart).resolve_left (by simp)
  rcases List.mem_cons.mp hsel with hs | hs
  · have ht : t' = t := by cases hs; rfl
    subst ht
    exact .inr ⟨rfl, q, uid, p, rows, r, hq, hu, hs.symm, hr⟩
  · exact .inl ⟨q, uid, p, rows, r, hq, hu, hs, hr⟩

theorem picks_start (hf : Log.Fresh t l) :
    Picks t' id (.start t q :: l) ↔ Picks t' id l := by
  constructor
  · rintro ⟨q', uid, p, rows, r, hq, hu, hs, hr⟩
    have hs : .op t' (.select .sessions p) (.ok rows) ∈ l :=
      (List.mem_cons.mp hs).resolve_left (by simp)
    rcases List.mem_cons.mp hq with hq | hq
    · cases hq
      exact absurd rfl (hf _ hs)
    · exact ⟨q', uid, p, rows, r, hq, hu, hs, hr⟩
  · exact fun h => h.mono fun _ he => List.mem_cons_of_mem _ he

theorem picks_done : Picks t' id (.done t a :: l) ↔ Picks t' id l := by
  simp [Picks]

theorem revokes_done : Revokes t' id (.done t a :: l) ↔ Revokes t' id l := by
  simp [Revokes, picks_done]

theorem names_done : Names t' id (.done t a :: l) ↔ Names t' id l := by
  simp [Names, picks_done]

theorem revokes_op (h : Revokes t' id (.op t o x :: l)) :
    Revokes t' id l ∨ t' = t := by
  rcases h with ⟨s, hs, hid⟩ | h
  · exact .inl (.inl ⟨s, (List.mem_cons.mp hs).resolve_left (by simp), hid⟩)
  · rcases picks_op h with h | ⟨ht, -⟩
    · exact .inl (.inr h)
    · exact .inr ht

/-- While a request is in flight, its operations complete no revocation. -/
theorem revokedIn_op (hno : ∀ a, .done t a ∉ l) (h : RevokedIn id (.op t o x :: l)) :
    RevokedIn id l := by
  obtain ⟨t', a, hrev, hdone⟩ := h
  have ha : .done t' (.ok a) ∈ l := (List.mem_cons.mp hdone).resolve_left (by simp)
  rcases revokes_op hrev with hr | rfl
  · exact ⟨t', a, hr, ha⟩
  · exact absurd ha (hno _)

theorem revokedIn_start (hf : Log.Fresh t l) (h : RevokedIn id (.start t q :: l)) :
    RevokedIn id l := by
  obtain ⟨t', a, hrev, hdone⟩ := h
  have ha : .done t' (.ok a) ∈ l := (List.mem_cons.mp hdone).resolve_left (by simp)
  refine ⟨t', a, ?_, ha⟩
  rcases hrev with ⟨s, hstart, hid⟩ | hr
  · rcases List.mem_cons.mp hstart with hs | hs
    · have ht : t' = t := by cases hs; rfl
      exact absurd ht (hf _ ha)
    · exact .inl ⟨s, hs, hid⟩
  · exact .inr ((picks_start hf).mp hr)

end Log

/-! ### The invariant -/

/-- The copy of the session expires when one of its revocations has read the clock, or
before. -/
def Expires (id : String) (l : SessionLog) (s : Session) : Prop := ∃ T, Stamp id T l ∧ s.exp ≤ T

/-- Sessions stand under their ids, which are unique; a revocation in flight is alone
with its sessions; and every copy of a revoked session has expired. -/
structure WriterInv (w : World) (l : SessionLog) : Prop where
  keyed : ∀ k s, w.cache .sessions (Session.cacheIdx k) = some (.session s) → s.id = k
  unique : ∀ r ∈ w.db .sessions, ∀ r' ∈ w.db .sessions, r.id = r'.id → r = r'
  alone : ∀ t t' id, t ≠ t' → Log.Running t l → Log.Running t' l → Revokes t id l →
    ¬ Names t' id l
  row : ∀ r ∈ w.db .sessions, RevokedIn r.id l → Expires r.id l r
  entry : ∀ k s, w.cache .sessions (Session.cacheIdx k) = some (.session s) →
    RevokedIn k l → Expires k l s

/-- No copy of the session has come in. -/
structure Fewer (id : String) (w w' : World) : Prop where
  row : ∀ r ∈ w'.db .sessions, r.id = id → r ∈ w.db .sessions
  entry : ∀ s, w'.cache .sessions (Session.cacheIdx id) = some (.session s) →
    w.cache .sessions (Session.cacheIdx id) = some (.session s)

/-- What request `t` relies on: the log grows, `t` is started, ended and reads sessions
only by itself, the sessions it is for are not revoked meanwhile, and those that it
revokes are not written. -/
structure WriterRely (t : ℕ) (s s' : World × SessionLog) : Prop where
  log : ∀ e ∈ s.2, e ∈ s'.2
  start : ∀ q, .start t q ∈ s'.2 → .start t q ∈ s.2
  done : ∀ a, .done t a ∈ s'.2 → .done t a ∈ s.2
  read : ∀ p rows, .op t (.select .sessions p) (.ok rows) ∈ s'.2 →
    .op t (.select .sessions p) (.ok rows) ∈ s.2
  revoked : ∀ id, Names t id s.2 → RevokedIn id s'.2 → RevokedIn id s.2
  fewer : ∀ id, Revokes t id s.2 → Fewer id s.1 s'.1

theorem WriterRely.refl (t : ℕ) (s : World × SessionLog) : WriterRely t s s :=
  ⟨fun _ h => h, fun _ h => h, fun _ h => h, fun _ _ h => h, fun _ _ h => h,
    fun _ _ => ⟨fun _ h _ => h, fun _ h => h⟩⟩

theorem WriterRely.trans {s₁ s₂ s₃ : World × SessionLog} (h₁ : WriterRely t s₁ s₂)
    (h₂ : WriterRely t s₂ s₃) : WriterRely t s₁ s₃ where
  log e h := h₂.log e (h₁.log e h)
  start q h := h₁.start q (h₂.start q h)
  done a h := h₁.done a (h₂.done a h)
  read p rows h := h₁.read p rows (h₂.read p rows h)
  revoked id hn h := h₁.revoked id hn (h₂.revoked id (hn.mono h₁.log) h)
  fewer id hr := by
    have hf₁ := h₁.fewer id hr
    have hf₂ := h₂.fewer id (hr.mono h₁.log)
    exact ⟨fun r h hid => hf₁.row r (hf₂.row r h hid) hid, fun s h => hf₁.entry s (hf₂.entry s h)⟩

/-- The request `t` is `q` and is in flight. -/
structure InFlight (t : ℕ) (q : SessionReq) (l : SessionLog) : Prop where
  start : .start t q ∈ l
  only : ∀ q', .start t q' ∈ l → q' = q
  open_ : ∀ a, .done t a ∉ l

theorem InFlight.running (h : InFlight t q l) :
    Log.Running t l := ⟨⟨q, h.start⟩, h.open_⟩

theorem InFlight.stable {s' : World × SessionLog} (h : InFlight t q s.2) (hr : WriterRely t s s') :
    InFlight t q s'.2 :=
  ⟨hr.log _ h.start, fun q' hq => h.only q' (hr.start q' hq), fun a ha => h.open_ a (hr.done a ha)⟩

theorem InFlight.op {o : Op} {x : o.Res} (h : InFlight t q l) : InFlight t q (.op t o x :: l) := by
  refine ⟨List.mem_cons_of_mem _ h.start, fun q' hq => ?_, fun a ha => ?_⟩
  · exact h.only q' ((List.mem_cons.mp hq).resolve_left (by simp))
  · exact h.open_ a ((List.mem_cons.mp ha).resolve_left (by simp))

/-- A copy of a session that request `t` may write. -/
def MayWrite (t : ℕ) (l : SessionLog) (s : Session) : Prop :=
  Names t s.id l ∧ (RevokedIn s.id l → Expires s.id l s)

/-- The copies after an operation of request `t`: those before, and those it may write. -/
structure Writes (t : ℕ) (l : SessionLog) (w w' : World) : Prop where
  row : ∀ r ∈ w'.db .sessions, r ∈ w.db .sessions ∨ MayWrite t l r
  entry : ∀ k s, w'.cache .sessions (Session.cacheIdx k) = some (.session s) →
    w.cache .sessions (Session.cacheIdx k) = some (.session s) ∨ k = s.id ∧ MayWrite t l s
  unique : (∀ r ∈ w.db .sessions, ∀ r' ∈ w.db .sessions, r.id = r'.id → r = r') →
    ∀ r ∈ w'.db .sessions, ∀ r' ∈ w'.db .sessions, r.id = r'.id → r = r'

theorem Expires.mono {id : String} {l' : SessionLog} {s : Session} (h : Expires id l s)
    (hl : ∀ e ∈ l, e ∈ l') : Expires id l' s := by
  obtain ⟨T, hT, hle⟩ := h
  exact ⟨T, hT.mono hl, hle⟩

/-- **Step lemma**: an operation of a request in flight that writes what it may keeps
the invariant and what the others rely on. -/
theorem writerInv_op {o : Op} {x : o.Res} {w' : World} (hI : WriterInv w l) (hq : InFlight t q l)
    (hw : Writes t (.op t o x :: l) w w') (hC : RevokesAlone w l (.op t o x)) :
    WriterInv w' (.op t o x :: l) ∧ Others WriterRely t (w, l) (w', .op t o x :: l) := by
  have hmono : ∀ e ∈ l, e ∈ .op t o x :: l := fun _ he => List.mem_cons_of_mem _ he
  have hrun : ∀ {t'}, Log.Running t' (.op t o x :: l) ↔ Log.Running t' l := by
    simp [Log.Running]
  have hnames : ∀ {t' id}, t' ≠ t → Names t' id (.op t o x :: l) → Names t' id l := by
    rintro t' id hne (⟨q', hq', hid⟩ | h)
    · exact .inl ⟨q', (List.mem_cons.mp hq').resolve_left (by simp), hid⟩
    · rcases picks_op h with h | ⟨rfl, -⟩
      · exact .inr h
      · exact absurd rfl hne
  have halone : ∀ t₁ t₂ id, t₁ ≠ t₂ → Log.Running t₁ l → Log.Running t₂ l →
      Revokes t₁ id (.op t o x :: l) → ¬ Names t₂ id (.op t o x :: l) := by
    intro t₁ t₂ id hne hr₁ hr₂ hrev hn
    -- a pick that this operation makes concerns only sessions nobody else is at
    have hpick : ∀ {t' id}, Picks t' id (.op t o x :: l) → Picks t' id l ∨
        t' = t ∧ ∀ t'', t'' ≠ t → Log.Running t'' l → ¬ Names t'' id l := by
      intro t' id h
      rcases picks_op h with h | ⟨rfl, q', uid, p, rows, r, hq', hu, he, hr, hru, rfl⟩
      · exact .inl h
      · exact .inr ⟨rfl, hC.pick _ q' uid p rows r he hq' hu hr hru⟩
    have hrev' : Revokes t₁ id l ∨ t₁ = t ∧ ∀ t'', t'' ≠ t → Log.Running t'' l → ¬ Names t'' id l := by
      rcases hrev with ⟨s, hs, hid⟩ | h
      · exact .inl (.inl ⟨s, (List.mem_cons.mp hs).resolve_left (by simp), hid⟩)
      · exact (hpick h).imp .inr fun h => h
    rcases hrev' with hold | ⟨rfl, hnone⟩
    · rcases hn with ⟨q', hq', hid⟩ | h
      · exact hI.alone t₁ t₂ id hne hr₁ hr₂ hold
          (.inl ⟨q', (List.mem_cons.mp hq').resolve_left (by simp), hid⟩)
      · rcases hpick h with h | ⟨rfl, hnone⟩
        · exact hI.alone t₁ t₂ id hne hr₁ hr₂ hold (.inr h)
        · exact hnone t₁ hne hr₁ hold.names
    · exact hnone t₂ (Ne.symm hne) hr₂ (hnames (Ne.symm hne) hn)
  refine ⟨⟨?_, hw.unique hI.unique, ?_, ?_, ?_⟩, ?_⟩
  · intro k s hs
    rcases hw.entry k s hs with hs | ⟨rfl, -⟩
    · exact hI.keyed k s hs
    · rfl
  · intro t₁ t₂ id hne hr₁ hr₂
    exact halone t₁ t₂ id hne (hrun.mp hr₁) (hrun.mp hr₂)
  · intro r hr hrev
    rcases hw.row r hr with hold | hnew
    · exact (hI.row r hold (revokedIn_op hq.open_ hrev)).mono hmono
    · exact hnew.2 hrev
  · intro k s hs hrev
    rcases hw.entry k s hs with hold | ⟨rfl, hnew⟩
    · exact (hI.entry k s hold (revokedIn_op hq.open_ hrev)).mono hmono
    · exact hnew.2 hrev
  · intro t' hne hr
    refine ⟨hmono, fun q' h => (List.mem_cons.mp h).resolve_left (by simp),
      fun a h => (List.mem_cons.mp h).resolve_left (by simp), fun p rows h => ?_,
      fun id _ h => revokedIn_op hq.open_ h, fun id hrev => ?_⟩
    · exact (List.mem_cons.mp h).resolve_left fun he => hne (by cases he; rfl)
    have hnot := halone t' t id hne hr hq.running (hrev.mono hmono)
    refine ⟨fun r h hid => ?_, fun s h => ?_⟩
    · exact (hw.row r h).resolve_right fun hm => hnot (hid ▸ hm.1)
    · exact (hw.entry id s h).resolve_right fun hm => hnot (hm.1 ▸ hm.2.1)

/-! ### One request -/

section Request

variable {t : ℕ} {q : SessionReq} {id : String} {s : World × SessionLog}
  {o : Op} {w w' : World} {l : SessionLog} {α : Type} {c : Session} {s' : World × SessionLog}
  {x : Except ErrorResponse Unit} {a : Bool} {data : AppState} {sid : String}
  {p : M ErrorResponse α} {Q : Except (Fault ErrorResponse) α → World × SessionLog → Prop}

/-- The precondition of request `t` for the rest of its program. -/
abbrev writerWp {α : Type} (t : ℕ) (p : M ErrorResponse α)
    (Q : Except (Fault ErrorResponse) α → World × SessionLog → Prop)
    (s : World × SessionLog) : Prop :=
  p.wp (logged sem RevokesAlone t) (fun s => WriterInv s.1 s.2) (WriterRely t)
    (Others WriterRely t) Q s

theorem Writes.refl (t : ℕ) (l : SessionLog) (w : World) : Writes t l w w :=
  ⟨fun _ => .inl, fun _ _ => .inl, fun h => h⟩

/-- Operations that neither read nor write sessions. -/
def QuietOp : Op → Prop
  | .now => True
  | .cacheDel _ _ => True
  | _ => False

theorem writes_of_quiet {x : o.Res} (ho : QuietOp o) (hx : sem o w x w') :
    Writes t l w w' ∧ ∀ id, Fewer id w w' := by
  have hframe : Frame [] [] w w' := by
    refine sem_frame ?_ hx
    cases o <;> trivial
  have hdb := hframe.db .sessions (by simp)
  have hentry : ∀ k v, w'.cache .sessions k = some v → w.cache .sessions k = some v := by
    intro k v hv
    exact (hframe.cache _ _ _ hv).resolve_right (by simp)
  refine ⟨⟨fun r hr => ?_, fun k c hc => .inl (hentry _ _ hc), fun h => ?_⟩, fun id => ⟨?_, ?_⟩⟩
  · exact .inl (hdb ▸ hr)
  · rwa [hdb]
  · exact fun r hr _ => hdb ▸ hr
  · exact fun c hc => hentry _ _ hc

/-- A quiet operation of `t` itself changes nothing that `t` relies on. -/
theorem rely_of_quiet {x : o.Res} (ho : QuietOp o) (hq : InFlight t q l) (hx : sem o w x w') :
    WriterRely t (w, l) (w', .op t o x :: l) where
  log _ he := List.mem_cons_of_mem _ he
  start _ h := (List.mem_cons.mp h).resolve_left (by simp)
  done _ h := (List.mem_cons.mp h).resolve_left (by simp)
  read p rows h := by
    refine (List.mem_cons.mp h).resolve_left fun he => ?_
    cases he
    exact ho
  revoked _ _ h := revokedIn_op hq.open_ h
  fewer id _ := (writes_of_quiet (t := t) (l := l) ho hx).2 id

theorem writerWp_quiet {P : World × SessionLog → Prop} (hp : Within QuietOp p)
    (hP : ∀ s s', P s → WriterRely t s s' → P s') (hin : ∀ s, P s → InFlight t q s.2) (hs : P s) :
    writerWp t p (fun r s => ∀ a, r = .ok a → P s) s := by
  refine wp_mono (wp_of_within (P := P) hp hP ?_ hs) fun r s h a _ => h
  rintro o ho ⟨w, l⟩ x ⟨w', l'⟩ hI hPs ⟨hx, hC, hl⟩
  simp only at hx hC hl hI
  subst hl
  have hq := hin _ hPs
  obtain ⟨hI', hoth⟩ := writerInv_op hI hq (writes_of_quiet ho hx).1 hC
  exact ⟨hI', hoth, hP _ _ hPs (rely_of_quiet ho hq hx)⟩

theorem MayWrite.mono {l' : SessionLog} (h : MayWrite t l c) (hl : ∀ e ∈ l, e ∈ l')
    (hrev : RevokedIn c.id l' → RevokedIn c.id l) : MayWrite t l' c :=
  ⟨h.1.mono hl, fun hr => (h.2 (hrev hr)).mono hl⟩

/-- The request is in flight and holds a copy that it may write. -/
def Held (t : ℕ) (q : SessionReq) (c : Session) (s : World × SessionLog) : Prop :=
  InFlight t q s.2 ∧ MayWrite t s.2 c

theorem Held.stable (h : Held t q c s) (hr : WriterRely t s s') : Held t q c s' :=
  ⟨h.1.stable hr, h.2.mono hr.log (hr.revoked _ h.2.1)⟩

theorem Held.op {v : World} {x : o.Res} (h : Held t q c (w, l)) : Held t q c (v, .op t o x :: l) :=
  ⟨h.1.op, h.2.mono (fun _ he => List.mem_cons_of_mem _ he) (revokedIn_op h.1.open_)⟩

/-- The copies afterwards are those before and `c`. -/
structure Stores (c : Session) (w w' : World) : Prop where
  row : ∀ r ∈ w'.db .sessions, r ∈ w.db .sessions ∨ r = c
  entry : ∀ k s, w'.cache .sessions (Session.cacheIdx k) = some (.session s) →
    w.cache .sessions (Session.cacheIdx k) = some (.session s) ∨ k = c.id ∧ s = c
  unique : (∀ r ∈ w.db .sessions, ∀ r' ∈ w.db .sessions, r.id = r'.id → r = r') →
    ∀ r ∈ w'.db .sessions, ∀ r' ∈ w'.db .sessions, r.id = r'.id → r = r'

theorem Stores.refl (c : Session) (w : World) : Stores c w w :=
  ⟨fun _ => .inl, fun _ _ => .inl, fun h => h⟩

theorem Stores.writes (h : Stores c w w') (hc : MayWrite t l c) : Writes t l w w' where
  row r hr := by
    rcases h.row r hr with hr | rfl
    · exact .inl hr
    · exact .inr hc
  entry k s hs := by
    rcases h.entry k s hs with hs | ⟨rfl, rfl⟩
    · exact .inl hs
    · exact .inr ⟨rfl, hc⟩
  unique := h.unique

theorem stores_upsert (hx : sem (.execute [.upsert .sessions c]) w x w') :
    Stores c w w' ∧ (x = .ok () → ∀ r ∈ w'.db .sessions, r.id = c.id → r = c) := by
  rcases sem_execute.mp hx with ⟨e, rfl, rfl⟩ | ⟨db, ⟨hdb, -⟩, rfl⟩
  · exact ⟨.refl c _, fun h => by cases h⟩
  cases hdb
  -- the rows with the key of `c` are gone
  have hrow : ∀ r ∈ Function.update w.db .sessions ((w.db .sessions).filter
      (fun r => !sameKey .sessions c r) ++ [c]) .sessions,
      (r ∈ w.db .sessions ∧ r.id ≠ c.id) ∨ r = c := by
    intro r hr
    rw [Function.update_self] at hr
    rcases List.mem_append.mp hr with hm | hm
    · obtain ⟨hm, hne⟩ := List.mem_filter.mp hm
      refine .inl ⟨hm, fun hid => ?_⟩
      simp [sameKey, hid] at hne
    · exact .inr (List.mem_singleton.mp hm)
  refine ⟨⟨fun r hr => (hrow r hr).imp_left And.left, fun _ _ => .inl, ?_⟩, fun _ r hr hid => ?_⟩
  · intro h r hr r' hr' hid
    rcases hrow r hr with ⟨hm, hne⟩ | rfl
    · rcases hrow r' hr' with ⟨hm', -⟩ | rfl
      · exact h r hm r' hm' hid
      · exact absurd hid hne
    · rcases hrow r' hr' with ⟨-, hne⟩ | rfl
      · exact absurd hid.symm hne
      · rfl
  · exact (hrow r hr).resolve_left fun h => h.2 hid

theorem stores_put (hx : sem (.cachePut .sessions (Session.cacheIdx c.id) (.session c)) w x w') :
    Stores c w w' ∧ w'.db = w.db ∧ (x = .ok () →
      ∀ s, w'.cache .sessions (Session.cacheIdx c.id) = some (.session s) → s = c) := by
  have hput : Stores c w (w.put .sessions (Session.cacheIdx c.id) (.session c)) := by
    refine ⟨fun _ => .inl, fun k s hs => ?_, fun h => h⟩
    rw [World.put_cache] at hs
    split at hs
    · next heq =>
        cases hs
        exact .inr ⟨Session.cacheIdx_inj.mp heq.2, rfl⟩
    · exact .inl hs
  rcases sem_cachePut.mp hx with ⟨-, rfl⟩ | ⟨e, rfl, rfl | rfl⟩
  · refine ⟨hput, rfl, fun _ s hs => ?_⟩
    rw [World.put_cache, if_pos ⟨rfl, rfl⟩] at hs
    cases hs
    rfl
  · exact ⟨.refl c _, rfl, fun h => by cases h⟩
  · exact ⟨hput, rfl, fun h => by cases h⟩

theorem writerWp_find (hs : InFlight t q s.2) (hq : q.target = some id) :
    writerWp t (Session.find id)
      (fun r s => ∀ c, r = .ok c → c.id = id ∧ Held t q c s) s := by
  have hrefl := WriterRely.refl t
  have hnames : ∀ {l}, InFlight t q l → Names t id l := fun h => .inl ⟨q, h.start, hq⟩
  refine wp_seq (P := fun x s => InFlight t q s.2 ∧ ∀ c, x = some c → c.id = id ∧ Held t q c s)
    hrefl ?_ ?_ (fun e s c h => by cases h)
  · refine wp_cacheGet ?_
    rintro ⟨w, l⟩ hr hI x ⟨w', l'⟩ ⟨hx, hC, hl⟩
    simp only at hx hC hl hI
    subst hl
    have hin := hs.stable hr
    have hw : Writes t (.op t (.cacheGet _ _) x :: l) w w' := by
      rcases sem_cacheGet.mp hx with ⟨-, rfl⟩ | ⟨-, rfl⟩ | ⟨e, -, rfl⟩
      · exact .refl t _ _
      · have hf := frame_del [] [] w .sessions (Session.cacheIdx id)
        refine ⟨fun _ => .inl, fun k c hc => .inl ?_, fun h => h⟩
        exact (hf.cache _ _ _ hc).resolve_right (by simp)
      · exact .refl t _ _
    obtain ⟨hI', hoth⟩ := writerInv_op hI hin hw hC
    refine ⟨hI', hoth, fun s₁ hr₁ _ y hy => ⟨hin.op.stable hr₁, fun c hc => ?_⟩⟩
    subst hc
    rcases x with e | - | v
    · cases hy
    · cases hy
    · simp only [gotten] at hy
      split at hy
      · next c' hv =>
          cases hy
          rw [CacheVal.session?_eq_some] at hv
          subst hv
          have hmem : w.cache .sessions (Session.cacheIdx id) = some (.session c) := by
            rcases sem_cacheGet.mp hx with ⟨h, -⟩ | ⟨h, -⟩ | ⟨e, h, -⟩
            · exact (Except.ok.inj h).symm
            · cases h
            · cases h
          have hid := hI.keyed _ _ hmem
          have hheld : Held t q c (w, l) := by
            refine ⟨hin, ?_, ?_⟩
            · exact hid ▸ hnames hin
            · rw [hid]
              exact hI.entry id c hmem
          exact ⟨hid, (Held.op (v := w') hheld).stable hr₁⟩
      · cases hy
  · rintro x s ⟨hin, hx⟩
    rcases x with - | c
    · refine wp_seq (P := fun c s => c.id = id ∧ Held t q c s) hrefl ?_ ?_ (fun e s c h => by cases h)
      · refine wp_seq (P := fun rows s => ∀ c ∈ rows, c.id = id ∧ Held t q c s) hrefl
          (wp_select (fun rows s s' h hr c hc => ⟨(h c hc).1, (h c hc).2.stable hr⟩) ?_) ?_
          (fun e s c h => by cases h)
        · rintro ⟨w, l⟩ hr hI x ⟨w', l'⟩ ⟨hx, hC, hl⟩
          simp only at hx hC hl hI
          obtain ⟨hw, hrows⟩ := sem_select.mp hx
          subst hl hw
          have hin := hin.stable hr
          obtain ⟨hI', hoth⟩ := writerInv_op hI hin (.refl t _ _) hC
          refine ⟨hI', hoth, fun rows hx c hc => ?_⟩
          rcases hrows with rfl | ⟨e, rfl⟩
          · cases hx
            obtain ⟨hmem, hid⟩ := List.mem_filter.mp hc
            rw [beq_iff_eq] at hid
            exact ⟨hid, Held.op (w := w') ⟨hin, hid ▸ hnames hin, hI.row c hmem⟩⟩
          · cases hx
        · intro rows s hrows
          refine wp_okOr fun s₁ hr _ r h c hc => ?_
          rcases h with ⟨-, rfl⟩ | ⟨c', h, rfl⟩
          · cases hc
          · cases hc
            obtain ⟨hid, hheld⟩ := hrows c (List.mem_of_head? h)
            exact ⟨hid, hheld.stable hr⟩
      · rintro c s ⟨hid, hheld⟩
        refine wp_seq (P := fun _ s => Held t q c s) hrefl
          (wp_cachePut (fun s s' h hr => h.stable hr) ?_)
          (fun _ s hheld s₁ hr _ a ha => ?_) (fun e s c h => by cases h)
        · rintro ⟨w, l⟩ hr hI x ⟨w', l'⟩ ⟨hx, hC, hl⟩
          simp only at hx hC hl hI
          subst hl
          have hheld := hheld.stable hr
          rw [← hid] at hx
          obtain ⟨hI', hoth⟩ := writerInv_op hI hheld.1
            ((stores_put hx).1.writes (Held.op (w := w) (v := w) hheld).2) (hid ▸ hC)
          exact ⟨hid ▸ hI', hid ▸ hoth, fun _ => hheld.op⟩
        · cases ha
          exact ⟨hid, hheld.stable hr⟩
    · intro s₁ hr _ c' hc'
      cases hc'
      obtain ⟨hid, hheld⟩ := hx c rfl
      exact ⟨hid, hheld.stable hr⟩

/-- Writing back a copy that the request holds.  A session that is not revoked when the
request has it stays so. -/
theorem writerWp_save {V : Prop} (hs : Held t q c s ∧ (V → ¬ RevokedIn c.id s.2)) :
    writerWp t (Session.save c)
      (fun r s => ∀ a, r = .ok a → Held t q c s ∧ (V → ¬ RevokedIn c.id s.2)) s := by
  have hstable : ∀ s s', Held t q c s ∧ (V → ¬ RevokedIn c.id s.2) → WriterRely t s s' →
      Held t q c s' ∧ (V → ¬ RevokedIn c.id s'.2) :=
    fun _ _ h hr => ⟨h.1.stable hr, fun hv hrev => h.2 hv (hr.revoked _ h.1.2.1 hrev)⟩
  refine wp_seq (P := fun _ s => Held t q c s ∧ (V → ¬ RevokedIn c.id s.2)) (WriterRely.refl t)
    (wp_execute hstable ?_) (fun _ s hs => wp_cachePut hstable ?_) (fun e s a h => by cases h)
  · rintro ⟨w, l⟩ hr hI x ⟨w', l'⟩ ⟨hx, hC, hl⟩
    simp only at hx hC hl hI
    subst hl
    obtain ⟨hheld, hv⟩ := hstable _ _ hs hr
    obtain ⟨hI', hoth⟩ := writerInv_op hI hheld.1
      ((stores_upsert hx).1.writes (Held.op (w := w) (v := w) hheld).2) hC
    exact ⟨hI', hoth, fun _ => ⟨hheld.op, fun h hrev => hv h (revokedIn_op hheld.1.open_ hrev)⟩⟩
  · rintro ⟨w, l⟩ hr hI x ⟨w', l'⟩ ⟨hx, hC, hl⟩
    simp only at hx hC hl hI
    subst hl
    obtain ⟨hheld, hv⟩ := hstable _ _ hs hr
    obtain ⟨hI', hoth⟩ := writerInv_op hI hheld.1
      ((stores_put hx).1.writes (Held.op (w := w) (v := w) hheld).2) hC
    exact ⟨hI', hoth, fun _ => ⟨hheld.op, fun h hrev => hv h (revokedIn_op hheld.1.open_ hrev)⟩⟩

/-- A copy that does not live longer may be written instead. -/
theorem Held.change {c' : Session} (h : Held t q c s) (hid : c'.id = c.id) (hexp : c'.exp ≤ c.exp) :
    Held t q c' s := by
  refine ⟨h.1, hid ▸ h.2.1, fun hrev => ?_⟩
  rw [hid] at hrev ⊢
  obtain ⟨T, hT, hle⟩ := h.2.2 hrev
  exact ⟨T, hT, Int.le_trans hexp hle⟩

theorem writerWp_inFlight (hs : InFlight t q s.2) (h : writerWp t p Q s) :
    writerWp t p (fun r s => InFlight t q s.2 ∧ Q r s) s := by
  induction p generalizing s with
  | ret a => exact fun s₁ hr hi => ⟨hs.stable hr, h s₁ hr hi⟩
  | fail e => exact fun s₁ hr hi => ⟨hs.stable hr, h s₁ hr hi⟩
  | call o k ih =>
      intro s₁ hr hi x s₂ hx
      obtain ⟨hi', hg, hk⟩ := h s₁ hr hi x s₂ hx
      refine ⟨hi', hg, ih x ?_ hk⟩
      rw [hx.2.2]
      exact (hs.stable hr).op

theorem writerWp_log {A : SessionLog → Prop} (hA : ∀ l l', A l → (∀ e ∈ l, e ∈ l') → A l')
    (hs : A s.2) (h : writerWp t p Q s) :
    writerWp t p (fun r s => A s.2 ∧ Q r s) s := by
  induction p generalizing s with
  | ret a => exact fun s₁ hr hi => ⟨hA _ _ hs hr.log, h s₁ hr hi⟩
  | fail e => exact fun s₁ hr hi => ⟨hA _ _ hs hr.log, h s₁ hr hi⟩
  | call o k ih =>
      intro s₁ hr hi x s₂ hx
      obtain ⟨hi', hg, hk⟩ := h s₁ hr hi x s₂ hx
      refine ⟨hi', hg, ih x (hA _ _ (hA _ _ hs hr.log) fun e he => ?_) hk⟩
      rw [hx.2.2]
      exact List.mem_cons_of_mem _ he

/-- The rows of the session have expired. -/
def RowsExpire (id : String) (s : World × SessionLog) : Prop :=
  ∀ r ∈ s.1.db .sessions, r.id = id → Expires id s.2 r

/-- The cache entry of the session has expired. -/
def EntryExpires (id : String) (s : World × SessionLog) : Prop :=
  ∀ c, s.1.cache .sessions (Session.cacheIdx id) = some (.session c) → Expires id s.2 c

theorem RowsExpire.stable (h : RowsExpire id s) (hrev : Revokes t id s.2) (hr : WriterRely t s s') :
    RowsExpire id s' :=
  fun r hm hid => (h r ((hr.fewer id hrev).row r hm hid) hid).mono hr.log

theorem EntryExpires.stable (h : EntryExpires id s) (hrev : Revokes t id s.2)
    (hr : WriterRely t s s') : EntryExpires id s' :=
  fun c hc => (h c ((hr.fewer id hrev).entry c hc)).mono hr.log

/-- What has to hold when a request ends: the sessions it has revoked have expired, and
a session that it found valid is not revoked. -/
def WriterPost (t : ℕ) (r : SessionOutcome) (s : World × SessionLog) : Prop :=
  ∀ a, r = .ok a → ∃ q, InFlight t q s.2 ∧
    (∀ id, Revokes t id s.2 → RowsExpire id s ∧ EntryExpires id s) ∧
    (a = true → ∀ id, q.target = some id → ¬ RevokedIn id s.2)

theorem writerPost_error {e : Fault ErrorResponse} : WriterPost t (.error e) s :=
  fun a h => by cases h

theorem not_revokes (h : InFlight t q l) (hq : ∀ s, q ≠ .invalidate s) (hu : q.user = none) :
    ¬ Revokes t id l := by
  rintro (⟨s, hs, -⟩ | ⟨q', uid, p, rows, r, hq', hu', -⟩)
  · exact hq s (h.only _ hs).symm
  · rw [h.only _ hq', hu] at hu'
    cases hu'

/-- The request is in flight, and a session that it answers to be valid is not revoked. -/
def Answers (t : ℕ) (q : SessionReq) (a : Bool) (s : World × SessionLog) : Prop :=
  InFlight t q s.2 ∧ (a = true → ∀ id, q.target = some id → ¬ RevokedIn id s.2)

theorem Answers.stable (h : Answers t q a s) (hr : WriterRely t s s') : Answers t q a s' :=
  ⟨h.1.stable hr, fun ha id hid hrev => h.2 ha id hid
    (hr.revoked id (.inl ⟨q, h.1.start, hid⟩) hrev)⟩

theorem answers_false (h : InFlight t q s.2) : Answers t q false s :=
  ⟨h, fun h => by cases h⟩

theorem Answers.post (h : Answers t q a s) (hq : ∀ s, q ≠ .invalidate s) (hu : q.user = none) :
    WriterPost t (.ok a) s := by
  intro b hb
  cases hb
  exact ⟨q, h.1, fun id hr => absurd hr (not_revokes h.1 hq hu), h.2⟩

theorem writerWp_ret (h : Answers t q a s) (hq : ∀ s, q ≠ .invalidate s) (hu : q.user = none) :
    writerWp t (ret a) (WriterPost t) s :=
  fun _ hr _ => (h.stable hr).post hq hu

/-! ### The writers -/

/-- Whether a session is valid is asked later than it was revoked. -/
theorem writerWp_isValid {timeout : Int} {ip : Option String} (hq : q.Checks)
    (ht : q.target = some c.id) (hs : Held t q c s) :
    writerWp t (c.isValid timeout ip)
      (fun r s => ∀ a, r = .ok a → Held t q c s ∧ (a = true → ¬ RevokedIn c.id s.2)) s := by
  refine wp_seq (P := fun now s => Held t q c s ∧ (RevokedIn c.id s.2 → c.exp < now))
    (WriterRely.refl t) (wp_unixTimestamp (WriterRely.refl t) ?_ ?_) ?_
    (fun e s a h => by cases h)
  · exact fun now s s' h hr => ⟨h.1.stable hr, fun hrev => h.2 (hr.revoked _ h.1.2.1 hrev)⟩
  · rintro ⟨w, l⟩ hr hI ms ⟨w', l'⟩ ⟨hx, hC, hl⟩
    simp only at hx hC hl hI
    subst hl
    have hheld := hs.stable hr
    obtain ⟨hI', hoth⟩ := writerInv_op (o := .now) hI hheld.1 (writes_of_quiet (o := .now) trivial hx).1
      hC
    refine ⟨hI', hoth, hheld.op (o := .now), fun hrev => ?_⟩
    obtain ⟨T, hT, hle⟩ := hheld.2.2 (revokedIn_op (o := .now) hheld.1.open_ hrev)
    exact Int.lt_of_le_of_lt hle (hC.later t q c.id ms rfl hheld.1.start hq ht T hT)
  · rintro now s ⟨hheld, hexp⟩ s₁ hr - a ha
    cases ha
    refine ⟨hheld.stable hr, fun hvalid hrev => ?_⟩
    have hlt := hexp (hr.revoked _ hheld.2.1 hrev)
    rw [Session.isValidAt_eq_false_of_exp_lt hlt] at hvalid
    cases hvalid

theorem writerWp_seen {V : Prop} (hs : Held t q c s ∧ (V → ¬ RevokedIn c.id s.2)) :
    writerWp t c.seen
      (fun r s => ∀ a, r = .ok a → InFlight t q s.2 ∧ (V → ¬ RevokedIn c.id s.2)) s := by
  have hstable : ∀ s s', Held t q c s ∧ (V → ¬ RevokedIn c.id s.2) → WriterRely t s s' →
      Held t q c s' ∧ (V → ¬ RevokedIn c.id s'.2) :=
    fun _ _ h hr => ⟨h.1.stable hr, fun hv hrev => h.2 hv (hr.revoked _ h.1.2.1 hrev)⟩
  refine wp_seq (P := fun _ s => Held t q c s ∧ (V → ¬ RevokedIn c.id s.2)) (WriterRely.refl t)
    (writerWp_quiet (q := q) ?_ hstable (fun _ h => h.1.1) hs) (fun now s hs => ?_)
    (fun e s a h => by cases h)
  · exact within_bind ⟨trivial, fun _ => trivial⟩ fun _ => trivial
  · simp only
    split
    · have hs' : Held t q { c with lastSeen := now } s ∧ (V → ¬ RevokedIn c.id s.2) :=
        ⟨hs.1.change rfl (Int.le_refl _), hs.2⟩
      refine wp_seq (WriterRely.refl t) (writerWp_save hs') (fun _ s hs s₁ hr _ a _ => ?_)
        (fun e s a h => by cases h)
      exact ⟨hs.1.1.stable hr, fun hv hrev => hs.2 hv (hr.revoked _ hs.1.2.1 hrev)⟩
    · intro s₁ hr _ a _
      exact ⟨(hstable _ _ hs hr).1.1, (hstable _ _ hs hr).2⟩

theorem writerWp_middleware {req : HttpRequest} (hs : InFlight t (.middleware req) s.2) :
    writerWp t ((SessionReq.middleware req).prog data) (WriterPost t) s := by
  have hrefl := WriterRely.refl t
  have hnone : ∀ {s}, InFlight t (.middleware req) s.2 →
      writerWp t (ret none : M ErrorResponse (Option Session))
        (fun r s => ∀ x, r = .ok x → Answers t (.middleware req) x.isSome s) s := by
    intro s hs s₁ hr _ x hx
    cases hx
    exact answers_false (hs.stable hr)
  refine wp_seq (P := fun x s => Answers t (.middleware req) x.isSome s) hrefl ?_
    (fun x s h => writerWp_ret h (by simp) rfl) (fun e s => writerPost_error)
  unfold getSessionFromCookie
  split
  · exact hnone hs
  · next sid hsid =>
      refine wp_seq (P := fun r s => InFlight t (.middleware req) s.2 ∧
          ∀ c, r = .ok c → c.id = sid ∧ Held t (.middleware req) c s) hrefl (wp_tried hrefl ?_ ?_)
        ?_ (fun e s x h => by cases h)
      · exact fun x s s' h hr => ⟨h.1.stable hr, fun c hc => ⟨(h.2 c hc).1, (h.2 c hc).2.stable hr⟩⟩
      · refine wp_mono (writerWp_inFlight hs (writerWp_find hs hsid)) ?_
        rintro r s ⟨hin, hc⟩ x rfl
        refine ⟨hin, fun c hx => hc c ?_⟩
        rw [hx]
        rfl
      · rintro (e | c) s ⟨hin, hc⟩
        · exact hnone hin
        · obtain ⟨hid, hheld⟩ := hc c rfl
          refine wp_seq hrefl (writerWp_isValid (q := .middleware req) trivial (hid ▸ hsid) hheld)
            (fun valid s hs => ?_) (fun e s x h => by cases h)
          cases valid with
          | false => exact hnone hs.1.1
          | true =>
              refine wp_seq hrefl (writerWp_seen hs) (fun c' s hs s₁ hr _ x hx => ?_)
                (fun e s x h => by cases h)
              cases hx
              have hans : Answers t (.middleware req) true s := by
                refine ⟨hs.1, fun _ id hid' => ?_⟩
                have : id = c.id := by
                  rw [hid]
                  exact Option.some.inj (hid'.symm.trans hsid)
                rw [this]
                exact hs.2 rfl
              split
              · exact hans.stable hr
              · exact answers_false (hs.1.stable hr)

theorem writerWp_check {timeout : Int} {ip : Option String}
    (hs : InFlight t (.check sid timeout ip) s.2) :
    writerWp t ((SessionReq.check sid timeout ip).prog data) (WriterPost t) s := by
  refine wp_seq (WriterRely.refl t) (writerWp_find hs rfl) (fun c s hc => ?_)
    (fun e s => writerPost_error)
  obtain ⟨hid, hheld⟩ := hc
  have hq : (SessionReq.check sid timeout ip).target = some c.id := congrArg some hid.symm
  refine wp_mono (writerWp_isValid (q := .check sid timeout ip) trivial hq hheld) ?_
  rintro (e | a) s h
  · exact writerPost_error
  · obtain ⟨hheld, hv⟩ := h a rfl
    have hans : Answers t (.check sid timeout ip) a s := by
      refine ⟨hheld.1, fun ha id hid' => ?_⟩
      obtain rfl : c.id = id := Option.some.inj (hq.symm.trans hid')
      exact hv ha
    exact hans.post (by simp) rfl

theorem writerWp_setMfa {value : Bool} (hs : InFlight t (.setMfa sid value) s.2) :
    writerWp t ((SessionReq.setMfa sid value).prog data) (WriterPost t) s := by
  have hrefl := WriterRely.refl t
  refine wp_seq hrefl (writerWp_find hs rfl) (fun c s hc => ?_) (fun e s => writerPost_error)
  refine wp_seq (P := fun _ s => InFlight t (.setMfa sid value) s.2) hrefl ?_
    (fun _ s h => writerWp_ret (answers_false h) (by simp) rfl) (fun e s => writerPost_error)
  have hheld : Held t (.setMfa sid value) { c with isMfa := value } s :=
    hc.2.change rfl (Int.le_refl _)
  refine wp_seq hrefl (writerWp_save (V := False) ⟨hheld, False.elim⟩)
    (fun _ s h s₁ hr _ _ _ => h.1.1.stable hr) (fun e s a h => by cases h)

theorem writerWp_validateUserExpiry {user : User} (hs : Held t q c s) :
    writerWp t (c.validateUserExpiry user)
      (fun r s => ∀ c', r = .ok c' → Held t q c' s) s := by
  unfold Session.validateUserExpiry
  split
  · intro s₁ hr _ c' hc'
    cases hc'
    exact hs.stable hr
  · next ts _ =>
      refine wp_seq (P := fun _ s => Held t q c s) (WriterRely.refl t)
        (writerWp_quiet (q := q) ?_ (fun _ _ h hr => h.stable hr) (fun _ h => h.1) hs)
        (fun now s hs => ?_) (fun e s a h => by cases h)
      · exact within_bind ⟨trivial, fun _ => trivial⟩ fun _ => trivial
      · split
        · intro s₁ hr _ c' hc'
          cases hc'
        split
        · next hlt =>
            intro s₁ hr _ c' hc'
            cases hc'
            exact (hs.stable hr).change rfl (Int.le_of_lt hlt)
        · intro s₁ hr _ c' hc'
          cases hc'
          exact hs.stable hr

theorem writerWp_codeUpdate {code : AuthCode} {user : User}
    (hs : InFlight t (.codeUpdate code user) s.2) :
    writerWp t ((SessionReq.codeUpdate code user).prog data) (WriterPost t) s := by
  have hrefl := WriterRely.refl t
  refine wp_seq (P := fun _ s => InFlight t (.codeUpdate code user) s.2) hrefl ?_
    (fun _ s h => writerWp_ret (answers_false h) (by simp) rfl) (fun e s => writerPost_error)
  refine wp_mono (writerWp_inFlight (Q := fun _ _ => True) hs ?_) fun r s h a _ => h.1
  unfold updateCodeSession
  split
  · exact fun _ _ _ => trivial
  · next sid hsid =>
      refine wp_seq hrefl (writerWp_find hs hsid) (fun c s hc => ?_) (fun e s => trivial)
      refine wp_seq (P := fun _ s => Held t (.codeUpdate code user) c s) hrefl
        (writerWp_quiet (q := .codeUpdate code user) ?_ (fun _ _ h hr => h.stable hr)
          (fun _ h => h.1) hc.2) (fun now s hs => ?_) (fun e s => trivial)
      · exact within_bind ⟨trivial, fun _ => trivial⟩ fun _ => trivial
      have hheld : Held t (.codeUpdate code user) { c with lastSeen := now, state := .auth } s :=
        hs.change rfl (Int.le_refl _)
      refine wp_seq (P := fun r s => InFlight t (.codeUpdate code user) s.2 ∧
          ∀ c', r = .ok c' → Held t (.codeUpdate code user) c' s) hrefl (wp_tried hrefl ?_ ?_) ?_
        (fun e s => trivial)
      · exact fun x s s' h hr => ⟨h.1.stable hr, fun c hc => (h.2 c hc).stable hr⟩
      · refine wp_mono (writerWp_inFlight hheld.1 (writerWp_validateUserExpiry hheld)) ?_
        rintro r s ⟨hin, hc⟩ x rfl
        refine ⟨hin, fun c hx => hc c ?_⟩
        rw [hx]
        rfl
      · rintro (e | c') s ⟨hin, hc'⟩
        · -- the code goes, the session stays
          refine wp_seq (P := fun _ _ => True) hrefl ?_ (fun _ _ _ _ _ _ => trivial)
            (fun e s => trivial)
          refine wp_mono (writerWp_quiet (q := .codeUpdate code user)
            (P := fun s => InFlight t (.codeUpdate code user) s.2) ?_
            (fun _ _ h hr => h.stable hr) (fun _ h => h) hin) fun _ _ _ _ _ => trivial
          exact ⟨trivial, fun x => by cases x <;> trivial⟩
        · refine wp_seq hrefl (writerWp_validateUserExpiry (hc' c' rfl)) (fun c'' s hc'' => ?_)
            (fun e s => trivial)
          have hlast : Held t (.codeUpdate code user) { c'' with
              userId := some user.id, roles := some user.roles, groups := user.groups } s :=
            hc''.change rfl (Int.le_refl _)
          exact wp_mono (writerWp_save (V := False) ⟨hlast, False.elim⟩) fun _ _ _ => trivial

/-! ### `invalidate` -/

/-- The statement of `invalidate` writes rows that have expired. -/
theorem writes_invalidate {T : Int} (hn : Names t sid l) (hT : Stamp sid T l)
    (hx : sem (.execute [.update .sessions (fun r => r.id == sid)
      fun r => { r with exp := T, state := .loggedOut }]) w x w') :
    Writes t l w w' ∧ w'.cache = w.cache ∧
      (x = .ok () → ∀ r ∈ w'.db .sessions, r.id = sid → r.exp = T) := by
  rcases sem_execute.mp hx with ⟨e, rfl, rfl⟩ | ⟨db, ⟨hdb, -⟩, rfl⟩
  · exact ⟨.refl t l _, rfl, fun h => by cases h⟩
  have hrows := exp_of_update (by simpa [applyAll] using hdb)
  refine ⟨⟨fun r hr => ?_, fun _ _ => .inl, fun h r hr r' hr' hid => ?_⟩, rfl,
    fun _ r hr hid => ?_⟩
  · rcases hrows r hr with ⟨hid, hexp⟩ | ⟨-, hold⟩
    · exact .inr ⟨hid ▸ hn, fun _ => ⟨T, hid ▸ hT, Int.le_of_eq hexp⟩⟩
    · exact .inl hold
  · -- rows with the same id come from the same row
    cases hdb
    simp only [Function.update_self] at hr hr'
    obtain ⟨r₀, hr₀, rfl⟩ := List.mem_map.mp hr
    obtain ⟨r₁, hr₁, rfl⟩ := List.mem_map.mp hr'
    have hid₀ : ∀ r : Session, (if (r.id == sid) = true then
        { r with exp := T, state := SessionState.loggedOut } else r).id = r.id := by
      intro r
      split <;> rfl
    rw [hid₀, hid₀] at hid
    rw [h r₀ hr₀ r₁ hr₁ hid]
  · exact ((hrows r hr).resolve_right fun h => h.1 hid).2

theorem writerWp_invalidate {s₀ : Session} (hs : InFlight t (.invalidate s₀) s.2) :
    writerWp t ((SessionReq.invalidate s₀).prog data) (WriterPost t) s := by
  have hrefl := WriterRely.refl t
  have hrev : ∀ {l}, InFlight t (.invalidate s₀) l → Revokes t s₀.id l :=
    fun h => .inl ⟨s₀, h.start, rfl⟩
  -- when the clock has been read, the entry has expired already
  let Read : Int → World × SessionLog → Prop := fun T s =>
    InFlight t (.invalidate s₀) s.2 ∧ Stamp s₀.id T s.2 ∧ EntryExpires s₀.id s
  have hRead : ∀ T s s', Read T s → WriterRely t s s' → Read T s' := fun T s s' h hr =>
    ⟨h.1.stable hr, h.2.1.mono hr.log, h.2.2.stable (hrev h.1) hr⟩
  -- when the row has been written, everything has
  let Gone : World × SessionLog → Prop := fun s =>
    InFlight t (.invalidate s₀) s.2 ∧ RowsExpire s₀.id s ∧ EntryExpires s₀.id s
  have hGone : ∀ s s', Gone s → WriterRely t s s' → Gone s' := fun s s' h hr =>
    ⟨h.1.stable hr, h.2.1.stable (hrev h.1) hr, h.2.2.stable (hrev h.1) hr⟩
  refine wp_seq (P := fun _ s => Gone s) hrefl ?_ (fun _ s hs s₁ hr _ a ha => ?_)
    (fun e s => writerPost_error)
  · refine wp_seq (P := Read) hrefl (wp_unixTimestamp hrefl hRead ?_) (fun T s hs => ?_)
      (fun e s a h => by cases h)
    · rintro ⟨w, l⟩ hr hI ms ⟨w', l'⟩ ⟨hx, hC, hl⟩
      simp only at hx hC hl hI
      subst hl
      have hin := hs.stable hr
      obtain ⟨hI', hoth⟩ := writerInv_op (o := .now) hI hin (writes_of_quiet (o := .now) trivial hx).1 hC
      have hstamp : Stamp s₀.id (ms / 1000) (.op t .now ms :: l) :=
        ⟨t, ms, hrev (hin.op (o := .now)), List.mem_cons_self, rfl⟩
      refine ⟨hI', hoth, hin.op (o := .now), hstamp, fun c hc => ⟨_, hstamp, ?_⟩⟩
      obtain ⟨-, rfl⟩ := sem_now.mp hx
      exact hC.cached t s₀ ms rfl hin.start c hc
    · refine wp_seq (P := fun _ s => Gone s) hrefl (wp_execute hGone ?_) (fun _ s hs => ?_)
        (fun e s a h => by cases h)
      · rintro ⟨w, l⟩ hr hI x ⟨w', l'⟩ ⟨hx, hC, hl⟩
        simp only at hx hC hl hI
        subst hl
        obtain ⟨hin, hstamp, hentry⟩ := hRead T _ _ hs hr
        have hmono : ∀ e ∈ l, e ∈ .op t (.execute _) x :: l := fun _ he => List.mem_cons_of_mem _ he
        obtain ⟨hw, hcache, hexp⟩ := writes_invalidate (hrev hin.op).names (hstamp.mono hmono) hx
        obtain ⟨hI', hoth⟩ := writerInv_op hI hin hw hC
        refine ⟨hI', hoth, fun hok => ⟨hin.op, fun r hm hid => ?_, fun c hc => ?_⟩⟩
        · exact ⟨T, hstamp.mono hmono, Int.le_of_eq (hexp hok r hm hid)⟩
        · rw [hcache] at hc
          exact (hentry c hc).mono hmono
      · refine wp_seq (P := fun _ s => Gone s) hrefl
          (writerWp_quiet (q := .invalidate s₀) ?_ hGone (fun _ h => h.1) hs)
          (fun _ s hs s₁ hr _ a _ => hGone s s₁ hs hr) (fun e s a h => by cases h)
        exact ⟨trivial, fun x => by cases x <;> trivial⟩
  · cases ha
    obtain ⟨hin, hrows, hentry⟩ := hGone s s₁ hs hr
    refine ⟨_, hin, fun id hid => ?_, fun h => by cases h⟩
    rcases hid with ⟨s', hs', rfl⟩ | ⟨q', uid, p, rows, r, hq', hu, -⟩
    · cases hin.only _ hs'
      exact ⟨hrows, hentry⟩
    · rw [hin.only _ hq'] at hu
      cases hu

/-! ### `invalidate_for_user` -/

/-- The request has read the sessions `rows`, and those with an id in `D` have expired. -/
structure Clearing (t : ℕ) (q : SessionReq) (uid : String) (rows : List Session)
    (D : String → Prop) (s : World × SessionLog) : Prop where
  inFlight : InFlight t q s.2
  read : ∀ p rows', .op t (.select .sessions p) (.ok rows') ∈ s.2 → rows' = rows
  picks : ∀ r ∈ rows, r.userId = some uid → Picks t r.id s.2
  cleared : ∀ id, D id → Revokes t id s.2 ∧ RowsExpire id s ∧ EntryExpires id s

section Clearing

variable {uid : String} {rows : List Session} {D : String → Prop}
  {c : Session} {T : Int}

theorem Clearing.stable (h : Clearing t q uid rows D s) (hr : WriterRely t s s') :
    Clearing t q uid rows D s' where
  inFlight := h.inFlight.stable hr
  read p rows' hp := h.read p rows' (hr.read p rows' hp)
  picks r hm hu := (h.picks r hm hu).mono hr.log
  cleared id hid := by
    obtain ⟨hrev, hrows, hentry⟩ := h.cleared id hid
    exact ⟨hrev.mono hr.log, hrows.stable hrev hr, hentry.stable hrev hr⟩

/-- A write of a copy that has expired keeps what has been cleared. -/
theorem Clearing.op {x : o.Res} (h : Clearing t q uid rows D (w, l)) (hw : Stores c w w')
    (hc : Expires c.id l c) (ho : ∀ p, o ≠ .select .sessions p) :
    Clearing t q uid rows D (w', .op t o x :: l) where
  inFlight := h.inFlight.op
  read p rows' hp := by
    refine h.read p rows' ((List.mem_cons.mp hp).resolve_left fun he => ?_)
    cases he
    exact ho p rfl
  picks r hm hu := (h.picks r hm hu).mono fun _ he => List.mem_cons_of_mem _ he
  cleared id hid := by
    have hmono : ∀ e ∈ l, e ∈ .op t o x :: l := fun _ he => List.mem_cons_of_mem _ he
    obtain ⟨hrev, hrows, hentry⟩ := h.cleared id hid
    refine ⟨hrev.mono hmono, fun r hr hrid => ?_, fun c' hc' => ?_⟩
    · rcases hw.row r hr with hold | rfl
      · exact (hrows r hold hrid).mono hmono
      · exact hrid ▸ hc.mono hmono
    · rcases hw.entry id c' hc' with hold | ⟨rfl, rfl⟩
      · exact (hentry c' hold).mono hmono
      · exact hc.mono hmono

/-- When all sessions of the user are cleared, the request can end. -/
theorem Clearing.post (h : Clearing t q uid rows D s) (hu : q.user = some uid)
    (hq : ∀ s, q ≠ .invalidate s) (hD : ∀ r ∈ rows, r.userId = some uid → D r.id) :
    WriterPost t (.ok false) s := by
  intro a ha
  cases ha
  refine ⟨q, h.inFlight, fun id hid => ?_, fun h => by cases h⟩
  rcases hid with ⟨s', hs', -⟩ | ⟨q', uid', p, rows', r, hq', hu', hp, hr, hru, rfl⟩
  · exact absurd (h.inFlight.only _ hs').symm (hq s')
  · rw [h.inFlight.only _ hq', hu] at hu'
    cases hu'
    rw [h.read p rows' hp] at hr
    exact (h.cleared _ (hD r hr hru)).2

/-- Saving one of the sessions with the time of the revocation as its end. -/
theorem writerWp_saveExpired (hs : Clearing t q uid rows D s) (hrev : Revokes t c.id s.2)
    (hc : Expires c.id s.2 c) :
    writerWp t (Session.save c)
      (fun r s => ∀ a, r = .ok a → Clearing t q uid rows (fun id => D id ∨ id = c.id) s) s := by
  -- between the two writes only the row has expired
  let Half : World × SessionLog → Prop := fun s => Clearing t q uid rows D s ∧
    Revokes t c.id s.2 ∧ Expires c.id s.2 c ∧ RowsExpire c.id s
  have hHalf : ∀ s s', Half s → WriterRely t s s' → Half s' := fun s s' h hr =>
    ⟨h.1.stable hr, h.2.1.mono hr.log, h.2.2.1.mono hr.log, h.2.2.2.stable h.2.1 hr⟩
  refine wp_seq (P := fun _ s => Half s) (WriterRely.refl t) (wp_execute hHalf ?_)
    (fun _ s hs => wp_cachePut (fun _ _ h hr => h.stable hr) ?_) (fun e s a h => by cases h)
  · rintro ⟨w, l⟩ hr hI x ⟨w', l'⟩ ⟨hx, hC, hl⟩
    simp only at hx hC hl hI
    subst hl
    have hmono : ∀ e ∈ l, e ∈ .op t (.execute _) x :: l := fun _ he => List.mem_cons_of_mem _ he
    have hcl := hs.stable hr
    have hrev := hrev.mono hr.log
    have hc := hc.mono hr.log
    obtain ⟨hst, hrows⟩ := stores_upsert hx
    obtain ⟨hI', hoth⟩ := writerInv_op hI hcl.inFlight
      (hst.writes ⟨(hrev.mono hmono).names, fun _ => hc.mono hmono⟩) hC
    refine ⟨hI', hoth, fun hok => ⟨hcl.op hst hc (by simp), hrev.mono hmono, hc.mono hmono, ?_⟩⟩
    intro r hm hid
    rw [hrows hok r hm hid]
    exact hc.mono hmono
  · rintro ⟨w, l⟩ hr hI x ⟨w', l'⟩ ⟨hx, hC, hl⟩
    simp only at hx hC hl hI
    subst hl
    have hmono : ∀ e ∈ l, e ∈ .op t (.cachePut _ _ _) x :: l :=
      fun _ he => List.mem_cons_of_mem _ he
    obtain ⟨hcl, hrev, hc, hrows⟩ := hHalf _ _ hs hr
    obtain ⟨hst, hdb, hentry⟩ := stores_put hx
    obtain ⟨hI', hoth⟩ := writerInv_op hI hcl.inFlight
      (hst.writes ⟨(hrev.mono hmono).names, fun _ => hc.mono hmono⟩) hC
    have hcl' := hcl.op (x := x) hst hc (by simp)
    refine ⟨hI', hoth, fun hok => ⟨hcl'.inFlight, hcl'.read, hcl'.picks, fun id hid => ?_⟩⟩
    rcases hid with hid | rfl
    · exact hcl'.cleared id hid
    · refine ⟨hrev.mono hmono, fun r hm hid => ?_, fun c' hc' => ?_⟩
      · rw [hdb] at hm
        exact (hrows r hm hid).mono hmono
      · rw [hentry hok c' hc']
        exact hc.mono hmono

/-- The request has read the clock. -/
def ReadClock (t : ℕ) (T : Int) (l : SessionLog) : Prop :=
  ∃ ms : Int, .op t .now ms ∈ l ∧ T = ms / 1000

theorem readClock_mono (l l' : SessionLog) (h : ReadClock t T l) (hl : ∀ e ∈ l, e ∈ l') :
    ReadClock t T l' := by
  obtain ⟨ms, hms, hT⟩ := h
  exact ⟨ms, hl _ hms, hT⟩

theorem expires_of_clock (hT : ReadClock t T l) (hrev : Revokes t c.id l) :
    Expires c.id l { c with exp := T } := by
  obtain ⟨ms, hms, rfl⟩ := hT
  exact ⟨_, ⟨t, ms, hrev, hms, rfl⟩, Int.le_refl _⟩

/-- The loop of `invalidate_for_user`. -/
theorem writerWp_invalidateEach (l : List Session) (hl : ∀ r ∈ l, r ∈ rows) (hT : ReadClock t T s.2)
    (hs : Clearing t q uid rows D s) :
    writerWp t (Session.invalidateEach T uid l) (fun r s => ∀ a, r = .ok a →
      Clearing t q uid rows (fun id => D id ∨ ∃ r ∈ l, r.userId = some uid ∧ r.id = id) s) s := by
  induction l generalizing D s with
  | nil =>
      intro s₁ hr _ a _
      have h := hs.stable hr
      refine ⟨h.inFlight, h.read, h.picks, fun id hid => h.cleared id ?_⟩
      simpa using hid
  | cons c l ih =>
      unfold Session.invalidateEach
      split
      · next huid =>
          have hrev : Revokes t c.id s.2 := .inr (hs.picks c (hl c (by simp)) huid)
          have hsave := writerWp_log readClock_mono hT
            (writerWp_saveExpired (c := { c with exp := T }) hs hrev (expires_of_clock hT hrev))
          refine wp_seq (P := fun _ s => ReadClock t T s.2 ∧
              Clearing t q uid rows (fun id => D id ∨ id = c.id) s) (WriterRely.refl t)
            (wp_mono hsave fun r s h a ha => ⟨h.1, h.2 a ha⟩) (fun _ s hs => ?_)
            (fun e s a h => by cases h)
          refine wp_seq (WriterRely.refl t) (ih (fun r hr => hl r (by simp [hr])) hs.1 hs.2)
            (fun removed s hs s₁ hr _ a _ => ?_) (fun e s a h => by cases h)
          have h := hs.stable hr
          refine ⟨h.inFlight, h.read, h.picks, fun id hid => h.cleared id ?_⟩
          rcases hid with hid | ⟨r, hr, hru, rfl⟩
          · exact .inl (.inl hid)
          · rcases List.mem_cons.mp hr with rfl | hr
            · exact .inl (.inr rfl)
            · exact .inr ⟨r, hr, hru, rfl⟩
      · next huid =>
          refine wp_mono (ih (fun r hr => hl r (by simp [hr])) hT hs) fun r s h a ha => ?_
          have h := h a ha
          refine ⟨h.inFlight, h.read, h.picks, fun id hid => h.cleared id ?_⟩
          simpa [huid] using hid

/-- The sessions are read, with nobody else at those of the user. -/
theorem writerWp_select {p : Session → Bool} (hs : InFlight t q s.2) (hu : q.user = some uid)
    (hnone : ∀ p rows, .op t (.select .sessions p) (.ok rows) ∉ s.2) :
    writerWp t (select .sessions p) (fun r s => ∀ rows, r = .ok rows →
      Clearing t q uid rows (fun _ => False) s ∧ ∀ r ∈ rows, p r = true ∧
        (r.userId = some uid → ∀ r' ∈ s.1.db .sessions, r'.id = r.id → r' = r)) s := by
  refine wp_select ?_ ?_
  · intro rows s s' h hr
    refine ⟨h.1.stable hr, fun r hm => ⟨(h.2 r hm).1, fun hru r' hr' hid => ?_⟩⟩
    have hrev : Revokes t r.id s.2 := .inr (h.1.picks r hm hru)
    exact (h.2 r hm).2 hru r' ((hr.fewer r.id hrev).row r' hr' hid) hid
  · rintro ⟨w, l⟩ hr hI x ⟨w', l'⟩ ⟨hx, hC, hl⟩
    simp only at hx hC hl hI
    obtain ⟨hw, hrows⟩ := sem_select.mp hx
    subst hl hw
    have hin := hs.stable hr
    obtain ⟨hI', hoth⟩ := writerInv_op hI hin (.refl t _ _) hC
    refine ⟨hI', hoth, fun rows hok => ?_⟩
    rcases hrows with rfl | ⟨e, rfl⟩
    · cases hok
      refine ⟨⟨hin.op, fun p' rows' hp' => ?_, fun r hm hru => ?_, fun _ => False.elim⟩,
        fun r hm => ⟨(List.mem_filter.mp hm).2, fun _ r' hr' hid => ?_⟩⟩
      · rcases List.mem_cons.mp hp' with he | he
        · cases he
          rfl
        · exact absurd (hr.read _ _ he) (hnone p' rows')
      · exact ⟨q, uid, p, _, r, List.mem_cons_of_mem _ hin.start, hu, List.mem_cons_self, hm, hru,
          rfl⟩
      · exact hI.unique r' hr' r (List.mem_filter.mp hm).1 hid
    · cases hok

/-- All sessions of the user that the request has read have expired. -/
def Cleared (t : ℕ) (q : SessionReq) (uid : String) (s : World × SessionLog) : Prop :=
  ∃ rows D, Clearing t q uid rows D s ∧ ∀ r ∈ rows, r.userId = some uid → D r.id

theorem Cleared.stable (h : Cleared t q uid s) (hr : WriterRely t s s') :
    Cleared t q uid s' := by
  obtain ⟨rows, D, hcl, hD⟩ := h
  exact ⟨rows, D, hcl.stable hr, hD⟩

theorem within_cacheDel (c : CacheName) (k : String) : Within QuietOp (cacheDel c k) :=
  ⟨trivial, fun x => by cases x <;> trivial⟩

theorem writerWp_invalidateForUser (hs : InFlight t (.invalidateForUser uid) s.2)
    (hnone : ∀ p rows, .op t (.select .sessions p) (.ok rows) ∉ s.2) :
    writerWp t ((SessionReq.invalidateForUser uid).prog data) (WriterPost t) s := by
  have hrefl := WriterRely.refl t
  let q : SessionReq := .invalidateForUser uid
  refine wp_seq (P := fun _ s => Cleared t q uid s) hrefl ?_ (fun _ s h s₁ hr _ => ?_)
    (fun e s => writerPost_error)
  · -- the clock is read before the sessions are
    let Start : Int → World × SessionLog → Prop := fun T s => InFlight t q s.2 ∧
      ReadClock t T s.2 ∧ ∀ p rows, .op t (.select .sessions p) (.ok rows) ∉ s.2
    refine wp_seq (P := Start) hrefl (wp_unixTimestamp hrefl ?_ ?_) (fun T s hs => ?_)
      (fun e s a h => by cases h)
    · exact fun T s s' h hr => ⟨h.1.stable hr, readClock_mono _ _ h.2.1 hr.log,
        fun p rows hp => h.2.2 p rows (hr.read p rows hp)⟩
    · rintro ⟨w, l⟩ hr hI ms ⟨w', l'⟩ ⟨hx, hC, hl⟩
      simp only at hx hC hl hI
      subst hl
      have hin := hs.stable hr
      obtain ⟨hI', hoth⟩ := writerInv_op (o := .now) hI hin
        (writes_of_quiet (o := .now) trivial hx).1 hC
      refine ⟨hI', hoth, hin.op (o := .now), ⟨ms, List.mem_cons_self, rfl⟩, fun p rows hp => ?_⟩
      exact hnone p rows (hr.read p rows ((List.mem_cons.mp hp).resolve_left (by simp)))
    obtain ⟨hin, hT, hnone⟩ := hs
    refine wp_seq (P := fun ss s => ReadClock t T s.2 ∧
        ∃ rows, Clearing t q uid rows (fun _ => False) s ∧ ∀ r, r ∈ ss ↔ r ∈ rows) hrefl ?_
      (fun ss s hs => ?_) (fun e s a h => by cases h)
    · refine wp_seq (P := fun rows s => ReadClock t T s.2 ∧
          Clearing t q uid rows (fun _ => False) s) hrefl (wp_mono (writerWp_log readClock_mono hT
        (writerWp_select (q := q) hin rfl hnone)) fun r s h rows hr => ⟨h.1, (h.2 rows hr).1⟩)
        (fun rows s hs s₁ hr _ ss hss => ?_) (fun e s a h => by cases h)
      cases hss
      exact ⟨readClock_mono _ _ hs.1 hr.log, rows, hs.2.stable hr,
        fun r => List.mem_insertionSort _⟩
    · obtain ⟨hT, rows, hcl, hss⟩ := hs
      refine wp_seq (P := fun _ s => Cleared t q uid s) hrefl (wp_mono
        (writerWp_invalidateEach ss (fun r hr => (hss r).mp hr) hT hcl) fun r s h a ha => ?_)
        (fun removed s hs => ?_) (fun e s a h => by cases h)
      · exact ⟨rows, _, h a ha, fun r hr hru => .inr ⟨r, (hss r).mpr hr, hru, rfl⟩⟩
      · refine writerWp_quiet (q := q) (within_forEach fun _ _ => within_cacheDel _ _)
          (fun _ _ h hr => h.stable hr) ?_ hs
        rintro s ⟨rows, D, hcl, -⟩
        exact hcl.inFlight
  · obtain ⟨rows, D, hcl, hD⟩ := h.stable hr
    exact hcl.post rfl (by simp [q]) hD

/-! ### `delete_by_user` -/

/-- Removing the entries of sessions that have no row any more. -/
theorem writerWp_delEntries (l : List Session) (hs : Clearing t q uid rows D s)
    (hrow : ∀ r ∈ l, Revokes t r.id s.2 ∧ RowsExpire r.id s) :
    writerWp t (forEach (fun s => cacheDel .sessions (Session.cacheIdx s.id)) l)
      (fun r s => ∀ a, r = .ok a →
        Clearing t q uid rows (fun id => D id ∨ ∃ r ∈ l, r.id = id) s) s := by
  induction l generalizing D s with
  | nil =>
      intro s₁ hr _ a _
      have h := hs.stable hr
      refine ⟨h.inFlight, h.read, h.picks, fun id hid => h.cleared id ?_⟩
      simpa using hid
  | cons c l ih =>
      have hstable : ∀ s s' : World × SessionLog,
          (Clearing t q uid rows (fun id => D id ∨ id = c.id) s ∧
            ∀ r ∈ l, Revokes t r.id s.2 ∧ RowsExpire r.id s) → WriterRely t s s' →
          Clearing t q uid rows (fun id => D id ∨ id = c.id) s' ∧
            ∀ r ∈ l, Revokes t r.id s'.2 ∧ RowsExpire r.id s' := by
        intro s s' h hr
        refine ⟨h.1.stable hr, fun r hm => ?_⟩
        obtain ⟨hrev, hrows⟩ := h.2 r hm
        exact ⟨hrev.mono hr.log, hrows.stable hrev hr⟩
      refine wp_seq (P := fun _ s => Clearing t q uid rows (fun id => D id ∨ id = c.id) s ∧
          ∀ r ∈ l, Revokes t r.id s.2 ∧ RowsExpire r.id s) (WriterRely.refl t)
        (wp_cacheDel hstable ?_) (fun _ s hs => ?_) (fun e s a h => by cases h)
      · rintro ⟨w, l'⟩ hr hI x ⟨w', l''⟩ ⟨hx, hC, hl⟩
        simp only at hx hC hl hI
        subst hl
        have hcl := hs.stable hr
        have hquiet : QuietOp (.cacheDel .sessions (Session.cacheIdx c.id)) := trivial
        obtain ⟨hI', hoth⟩ := writerInv_op hI hcl.inFlight (writes_of_quiet hquiet hx).1 hC
        have hrely := rely_of_quiet hquiet hcl.inFlight hx
        refine ⟨hI', hoth, fun hok => ?_⟩
        have hcl' := hcl.stable hrely
        refine ⟨⟨hcl'.inFlight, hcl'.read, hcl'.picks, fun id hid => ?_⟩, fun r hm => ?_⟩
        · rcases hid with hid | rfl
          · exact hcl'.cleared id hid
          · obtain ⟨hrev, hrows⟩ := hrow c (by simp)
            have hrows := hrows.stable hrev hr
            have hrev := hrev.mono hr.log
            refine ⟨hrev.mono hrely.log, hrows.stable hrev hrely, fun c' hc' => ?_⟩
            rcases sem_cacheDel.mp hx with ⟨-, rfl⟩ | ⟨e, he, -⟩
            · simp [World.del_cache] at hc'
            · rw [hok] at he
              cases he
        · obtain ⟨hrev, hrows⟩ := hrow r (by simp [hm])
          exact ⟨(hrev.mono hr.log).mono hrely.log,
            (hrows.stable hrev hr).stable (hrev.mono hr.log) hrely⟩
      · refine wp_mono (ih hs.1 hs.2) fun r s h a ha => ?_
        have h := h a ha
        refine ⟨h.inFlight, h.read, h.picks, fun id hid => h.cleared id ?_⟩
        rcases hid with hid | ⟨r, hr, rfl⟩
        · exact .inl (.inl hid)
        · rcases List.mem_cons.mp hr with rfl | hr
          · exact .inl (.inr rfl)
          · exact .inr ⟨r, hr, rfl⟩

theorem writerWp_deleteByUser (hs : InFlight t (.deleteByUser uid) s.2)
    (hnone : ∀ p rows, .op t (.select .sessions p) (.ok rows) ∉ s.2) :
    writerWp t ((SessionReq.deleteByUser uid).prog data) (WriterPost t) s := by
  have hrefl := WriterRely.refl t
  let q : SessionReq := .deleteByUser uid
  refine wp_seq (P := fun _ s => Cleared t q uid s) hrefl ?_ (fun _ s h s₁ hr _ => ?_)
    (fun e s => writerPost_error)
  · refine wp_seq hrefl (writerWp_select (q := q) hs rfl hnone) (fun rows s hs => ?_)
      (fun e s a h => by cases h)
    have hstable : ∀ s s' : World × SessionLog,
        (Clearing t q uid rows (fun _ => False) s ∧
          ∀ r ∈ rows, Revokes t r.id s.2 ∧ RowsExpire r.id s) → WriterRely t s s' →
        Clearing t q uid rows (fun _ => False) s' ∧
          ∀ r ∈ rows, Revokes t r.id s'.2 ∧ RowsExpire r.id s' := by
      intro s s' h hr
      refine ⟨h.1.stable hr, fun r hm => ?_⟩
      obtain ⟨hrev, hrows⟩ := h.2 r hm
      exact ⟨hrev.mono hr.log, hrows.stable hrev hr⟩
    refine wp_seq (P := fun _ s => Clearing t q uid rows (fun _ => False) s ∧
        ∀ r ∈ rows, Revokes t r.id s.2 ∧ RowsExpire r.id s) hrefl (wp_execute hstable ?_)
      (fun _ s hs => ?_) (fun e s a h => by cases h)
    · rintro ⟨w, l⟩ hr hI x ⟨w', l'⟩ ⟨hx, hC, hl⟩
      simp only at hx hC hl hI
      subst hl
      have hcl := hs.1.stable hr
      -- the rows of these sessions are rows of the user
      have huser : ∀ r ∈ rows, r.userId = some uid ∧ Revokes t r.id s.2 := by
        intro r hm
        have hru : r.userId = some uid := by simpa using (hs.2 r hm).1
        exact ⟨hru, .inr (hs.1.picks r hm hru)⟩
      have hall : ∀ r ∈ rows, ∀ r' ∈ w.db .sessions, r'.id = r.id → r'.userId = some uid := by
        intro r hm r' hr' hid
        obtain ⟨hru, hrev⟩ := huser r hm
        rw [(hs.2 r hm).2 hru r' ((hr.fewer r.id hrev).row r' hr' hid) hid]
        exact hru
      have hdel : (∀ r ∈ w'.db .sessions, r ∈ w.db .sessions) ∧ w'.cache = w.cache ∧
          (x = .ok () → ∀ r ∈ w'.db .sessions, r.userId ≠ some uid) := by
        rcases sem_execute.mp hx with ⟨e, rfl, rfl⟩ | ⟨db, ⟨hdb, -⟩, rfl⟩
        · exact ⟨fun _ h => h, rfl, fun h => by cases h⟩
        · cases hdb
          simp only [Function.update_self]
          refine ⟨fun r h => (List.mem_filter.mp h).1, trivial, fun _ r h => ?_⟩
          simpa using (List.mem_filter.mp h).2
      obtain ⟨hrows, hcache, hgone⟩ := hdel
      have hw : Writes t (.op t (.execute _) x :: l) w w' := by
        refine ⟨fun r h => .inl (hrows r h), fun k c hc => .inl (hcache ▸ hc), fun h r hr r' hr' => ?_⟩
        exact h r (hrows r hr) r' (hrows r' hr')
      obtain ⟨hI', hoth⟩ := writerInv_op hI hcl.inFlight hw hC
      refine ⟨hI', hoth, fun hok => ⟨⟨hcl.inFlight.op, fun p rows' hp => ?_, fun r hm hru => ?_,
        fun _ => False.elim⟩, fun r hm => ⟨?_, fun r' hr' hid => ?_⟩⟩⟩
      · exact hcl.read p rows' ((List.mem_cons.mp hp).resolve_left (by simp))
      · exact (hcl.picks r hm hru).mono fun _ he => List.mem_cons_of_mem _ he
      · exact ((huser r hm).2.mono hr.log).mono fun _ he => List.mem_cons_of_mem _ he
      · exact absurd (hall r hm r' (hrows r' hr') hid) (hgone hok r' hr')
    · refine wp_mono (writerWp_delEntries rows hs.1 hs.2) fun r s h a ha => ?_
      exact ⟨rows, _, h a ha, fun r hr _ => .inr ⟨r, hr, rfl⟩⟩
  · obtain ⟨rows, D, hcl, hD⟩ := h.stable hr
    exact hcl.post rfl (by simp [q]) hD

end Clearing

end Request

/-! ### Every run -/

theorem writerInv_start (hI : WriterInv w l) (hf : Log.Fresh t l)
    (hC : RevokesAlone w l (.start t q)) :
    WriterInv w (.start t q :: l) := by
  have hmono : ∀ e ∈ l, e ∈ .start t q :: l := fun _ he => List.mem_cons_of_mem _ he
  refine ⟨hI.keyed, hI.unique, ?_, fun r hr hrev => ?_, fun k s hs hrev => ?_⟩
  · -- what is new is what request `t` is for, and it has started no read yet
    intro t₁ t₂ id hne hr₁ hr₂ hrev hn
    have hrun : ∀ {t'}, t' ≠ t → Log.Running t' (.start t q :: l) → Log.Running t' l := by
      rintro t' hne ⟨⟨q', hq'⟩, hno⟩
      refine ⟨⟨q', (List.mem_cons.mp hq').resolve_left fun he => ?_⟩,
        fun a ha => hno a (List.mem_cons_of_mem _ ha)⟩
      cases he
      exact hne rfl
    have hold : ∀ {t' id}, t' ≠ t → Names t' id (.start t q :: l) → Names t' id l := by
      rintro t' id hne (⟨q', hq', hid⟩ | h)
      · refine .inl ⟨q', (List.mem_cons.mp hq').resolve_left fun he => ?_, hid⟩
        cases he
        exact hne rfl
      · exact .inr ((picks_start hf).mp h)
    by_cases ht₁ : t₁ = t
    · subst ht₁
      have hn₂ := hold (Ne.symm hne) hn
      have hrun₂ := hrun (Ne.symm hne) hr₂
      rcases hrev with ⟨s, hs, rfl⟩ | h
      · obtain rfl : SessionReq.invalidate s = q := (start_mem_fresh hf).mp hs
        exact hC.revoke t₁ s rfl t₂ hrun₂ hn₂
      · obtain ⟨q', uid, p, rows, r, -, -, hs, -⟩ := (picks_start hf).mp h
        exact hf _ hs rfl
    · have hrev₁ : Revokes t₁ id l := by
        rcases hrev with ⟨s, hs, rfl⟩ | h
        · refine .inl ⟨s, (List.mem_cons.mp hs).resolve_left fun he => ?_, rfl⟩
          cases he
          exact ht₁ rfl
        · exact .inr ((picks_start hf).mp h)
      have hrun₁ := hrun ht₁ hr₁
      by_cases ht₂ : t₂ = t
      · subst ht₂
        rcases hn with ⟨q', hq', hid⟩ | h
        · obtain rfl : q' = q := (start_mem_fresh hf).mp hq'
          exact hC.start t₂ q' id rfl hid t₁ hrun₁ hrev₁
        · obtain ⟨q', uid, p, rows, r, -, -, hs, -⟩ := (picks_start hf).mp h
          exact hf _ hs rfl
      · exact hI.alone t₁ t₂ id hne hrun₁ (hrun ht₂ hr₂) hrev₁ (hold ht₂ hn)
  · exact (hI.row r hr (revokedIn_start hf hrev)).mono hmono
  · exact (hI.entry k s hs (revokedIn_start hf hrev)).mono hmono

theorem writerInv_done {a : SessionOutcome} (hI : WriterInv w l) (hpost : WriterPost t a (w, l)) :
    WriterInv w (.done t a :: l) := by
  have hmono : ∀ e ∈ l, e ∈ .done t a :: l := fun _ he => List.mem_cons_of_mem _ he
  have hrun : ∀ {t'}, Log.Running t' (.done t a :: l) → Log.Running t' l := by
    rintro t' ⟨⟨q, hq⟩, hno⟩
    exact ⟨⟨q, (List.mem_cons.mp hq).resolve_left (by simp)⟩,
      fun a ha => hno a (List.mem_cons_of_mem _ ha)⟩
  -- a revocation that is completed by this answer is one of the request
  have hrevoked : ∀ {id}, RevokedIn id (.done t a :: l) → RevokedIn id l ∨
      RowsExpire id (w, l) ∧ EntryExpires id (w, l) := by
    rintro id ⟨t', b, hrev, hdone⟩
    rw [revokes_done] at hrev
    rcases List.mem_cons.mp hdone with he | he
    · cases he
      obtain ⟨q, -, hexp, -⟩ := hpost b rfl
      exact .inr (hexp id hrev)
    · exact .inl ⟨t', b, hrev, he⟩
  refine ⟨hI.keyed, hI.unique, ?_, fun r hr hrev => ?_, fun k s hs hrev => ?_⟩
  · intro t₁ t₂ id hne hr₁ hr₂ hrev hn
    exact hI.alone t₁ t₂ id hne (hrun hr₁) (hrun hr₂) (revokes_done.mp hrev) (names_done.mp hn)
  · rcases hrevoked hrev with hrev | hexp
    · exact (hI.row r hr hrev).mono hmono
    · exact (hexp.1 r hr rfl).mono hmono
  · rcases hrevoked hrev with hrev | hexp
    · exact (hI.entry k s hs hrev).mono hmono
    · exact (hexp.2 s hs).mono hmono

/-- The sessions of the initial world: entries under their ids, unique rows. -/
structure SessionsKeyed (w : World) : Prop where
  keyed : ∀ k s, w.cache .sessions (Session.cacheIdx k) = some (.session s) → s.id = k
  unique : ∀ r ∈ w.db .sessions, ∀ r' ∈ w.db .sessions, r.id = r'.id → r = r'

/-- Every request satisfies its precondition when it starts. -/
theorem writerWp_prog (data : AppState) (q : SessionReq) (hs : InFlight t q s.2)
    (hnone : ∀ p rows, .op t (.select .sessions p) (.ok rows) ∉ s.2) :
    writerWp t (q.prog data) (WriterPost t) s := by
  cases q with
  | middleware req => exact writerWp_middleware hs
  | check id timeout ip => exact writerWp_check hs
  | setMfa id value => exact writerWp_setMfa hs
  | codeUpdate code user => exact writerWp_codeUpdate hs
  | invalidate s₀ => exact writerWp_invalidate hs
  | invalidateForUser uid => exact writerWp_invalidateForUser hs hnone
  | deleteByUser uid => exact writerWp_deleteByUser hs hnone

/-- **A revoked session is not found valid again**, in every interleaving of writers and
revocations in which a revocation is alone with its sessions. -/
theorem revoked_not_found_valid (data : AppState) {w₀ : World} (hw : SessionsKeyed w₀)
    {P : Pool SessionReq Op Op.Res World (Fault ErrorResponse) Bool}
    (h : Run (SessionReq.prog data) sem RevokesAlone (init w₀) P) :
    Log.Always NoneRevived P.log := by
  have hnot : ∀ {id}, ¬ RevokedIn id [] := by
    rintro id ⟨t, a, -, ha⟩
    cases ha
  have hinit : WriterInv w₀ [] := by
    refine ⟨hw.keyed, hw.unique, ?_, fun r _ hrev => absurd hrev hnot,
      fun k s _ hrev => absurd hrev hnot⟩
    rintro t t' id - ⟨⟨q, hq⟩, -⟩
    cases hq
  have key := Run.sound_post (I := fun s => WriterInv s.1 s.2) (L := WriterRely) (F := WriterPost)
    WriterRely.refl (fun _ _ _ _ => WriterRely.trans) hinit ?_ ?_ h
  · refine key.mono fun e l hpost t q id he hq hid hrev => ?_
    obtain ⟨w, -, hF⟩ := hpost t _ he
    obtain ⟨q', hin, -, hvalid⟩ := hF true rfl
    rw [hin.only q hq] at hid
    exact hvalid rfl id hid hrev
  · intro w l t q hI hf hC
    have hin : InFlight t q (.start t q :: l) := by
      refine ⟨List.mem_cons_self, fun q' hq' => (start_mem_fresh hf).mp hq', fun a ha => ?_⟩
      exact hf _ ((List.mem_cons.mp ha).resolve_left (by simp)) rfl
    refine ⟨writerInv_start hI hf hC, fun t' hne hr => ?_, writerWp_prog data q hin ?_⟩
    · refine ⟨fun _ he => List.mem_cons_of_mem _ he, fun q' hq' => ?_,
        fun a ha => (List.mem_cons.mp ha).resolve_left (by simp),
        fun p rows hp => (List.mem_cons.mp hp).resolve_left (by simp),
        fun id _ hrev => revokedIn_start hf hrev, fun id _ => ⟨fun _ h _ => h, fun _ h => h⟩⟩
      refine (List.mem_cons.mp hq').resolve_left fun he => ?_
      cases he
      exact hne rfl
    · intro p rows hp
      exact hf _ ((List.mem_cons.mp hp).resolve_left (by simp)) rfl
  · intro w l t a hI hrun hpost hC
    refine ⟨writerInv_done hI hpost, fun t' hne hr => ⟨fun _ he => List.mem_cons_of_mem _ he,
      fun q' hq' => (List.mem_cons.mp hq').resolve_left (by simp), fun b hb => ?_,
      fun p rows hp => (List.mem_cons.mp hp).resolve_left (by simp), fun id hn hrev => ?_,
      fun id _ => ⟨fun _ h _ => h, fun _ h => h⟩⟩⟩
    · refine (List.mem_cons.mp hb).resolve_left fun he => ?_
      cases he
      exact hne rfl
    · -- the request that ends was alone with the sessions it has revoked
      obtain ⟨t'', b, hrev', hdone⟩ := hrev
      rw [revokes_done] at hrev'
      rcases List.mem_cons.mp hdone with he | he
      · cases he
        exact absurd hn (hI.alone t t' id (Ne.symm hne) hrun hr hrev')
      · exact ⟨t'', b, hrev', he⟩

/-! ### A session that is revived -/

/-- At most one reading of the clock in a second. -/
def oneReadPerSecond (_ : World) (l : SessionLog) : SessionEvent → Bool
  | .op _ .now ms => l.all fun
      | .op _ .now ms' => decide (ms' / 1000 < ms / 1000)
      | _ => true
  | _ => true

theorem checksLater_of_oneReadPerSecond (w : World) (l : SessionLog) (e : SessionEvent)
    (h : oneReadPerSecond w l e = true) : ChecksLater w l e := by
  rintro t q id ms rfl - - - T ⟨t', ms', -, hms, rfl⟩
  exact of_decide_eq_true (List.all_eq_true.mp h _ hms)

/-- One request at a time, and no `invalidate`. -/
def oneAtATime (w : World) (l : SessionLog) (e : SessionEvent) : Bool :=
  Solo w l e && decide (OneByOne w l e) && oneReadPerSecond w l e && l.all fun
    | .start _ (.invalidate _) => false
    | _ => true

theorem revokesAlone_of_oneAtATime (w : World) (l : SessionLog) (e : SessionEvent)
    (h : oneAtATime w l e = true) : RevokesAlone w l e := by
  simp only [oneAtATime, Bool.and_eq_true] at h
  obtain ⟨⟨⟨hsolo, hone⟩, htime⟩, hno⟩ := h
  have hone := of_decide_eq_true hone
  refine ⟨?_, ?_, ?_, ?_, checksLater_of_oneReadPerSecond w l e htime⟩
  · rintro t q id rfl - t' hr
    exact absurd hr (hone t q rfl t')
  · rintro t s rfl t' hr
    exact absurd hr (hone t _ rfl t')
  · rintro t q uid p rows r rfl - - - - t' hne hr
    exact absurd hr (not_running_of_solo hsolo hne)
  · rintro t s ms rfl hs
    exact absurd (List.all_eq_true.mp hno _ hs) (by simp)

theorem sessionsKeyed_storeWorld (s : Session) : SessionsKeyed (storeWorld [s]) where
  keyed k c h := by cases h
  unique r hr r' hr' _ := by
    rw [List.mem_singleton.mp hr, List.mem_singleton.mp hr']

theorem revoked_not_found_valid_alice :
    ∃ P, Run (SessionReq.prog sampleState) sem RevokesAlone (init (storeWorld [aliceSession])) P ∧
      Log.doneOf 0 P.log = some (.ok true) ∧ Log.doneOf 1 P.log = some (.ok false) ∧
      Log.doneOf 2 P.log = some (.ok false) ∧ Log.Always NoneRevived P.log := by
  obtain ⟨P, hrun, hcheck⟩ := exists_run_of_moves (SessionReq.prog sampleState) Op.run
    oneAtATime (storeWorld [aliceSession])
    [.start 0 (.check "s" 3600 none), .op 0 .ok, .op 0 .ok, .op 0 .ok, .op 0 (.time 100000),
      .done 0, .start 1 (.invalidateForUser "alice"), .op 1 (.time 101000), .op 1 .ok, .op 1 .ok,
      .op 1 .ok, .op 1 .ok, .done 1, .start 2 (.check "s" 3600 none), .op 2 .ok, .op 2 .ok,
      .op 2 .ok, .op 2 (.time 102000), .done 2]
    (fun P => decide (Log.doneOf 0 P.log = some (.ok true) ∧
      Log.doneOf 1 P.log = some (.ok false) ∧ Log.doneOf 2 P.log = some (.ok false)))
    (by decide +kernel) revokesAlone_of_oneAtATime
  obtain ⟨h₀, h₁, h₂⟩ := of_decide_eq_true hcheck
  exact ⟨P, hrun, h₀, h₁, h₂,
    revoked_not_found_valid sampleState (sessionsKeyed_storeWorld _) hrun⟩

/-- A request with the cookie of the session. -/
def aliceGet : HttpRequest := { (default : HttpRequest) with isGet := true, sessionCookie := some "s" }

/-- Request `t` has read the session of the user. -/
def hasRead (t : ℕ) (id uid : String) (l : SessionLog) : Bool :=
  l.any fun
    | .op t' (.select .sessions _) (.ok rows) =>
        t' == t && rows.any fun r => r.id == id && r.userId == some uid
    | _ => false

theorem picks_of_hasRead {id uid : String} (hq : .start t q ∈ l) (hu : q.user = some uid)
    (h : hasRead t id uid l = true) :
    Picks t id l := by
  obtain ⟨e, he, hr⟩ := List.any_eq_true.mp h
  split at hr
  · next t' p rows =>
      obtain ⟨ht, hrow⟩ := Bool.and_eq_true_iff.mp hr
      obtain ⟨r, hm, hr⟩ := List.any_eq_true.mp hrow
      simp only [Bool.and_eq_true, beq_iff_eq] at ht hr
      exact ⟨q, uid, p, rows, r, hq, hu, ht ▸ he, hm, hr.2, hr.1⟩
  · cases hr

/-- The middleware has read the session, all sessions of the user are invalidated, and
the middleware writes back what it has read. -/
theorem revoked_session_revived :
    ¬ ∀ (data : AppState) (w₀ : World)
        (P : Pool SessionReq Op Op.Res World (Fault ErrorResponse) Bool),
      SessionsKeyed w₀ → Run (SessionReq.prog data) sem ChecksLater (init w₀) P →
      Log.Always NoneRevived P.log := by
  intro h
  obtain ⟨P, hrun, hcheck⟩ := exists_run_of_moves (SessionReq.prog sampleState)
    Op.run oneReadPerSecond (storeWorld [aliceSession])
    [.start 0 (.middleware aliceGet), .op 0 .ok, .op 0 .ok, .op 0 .ok, .op 0 (.time 118000),
      .start 1 (.invalidateForUser "alice"), .op 1 (.time 119000), .op 1 .ok, .op 1 .ok,
      .op 1 .ok, .op 1 .ok, .done 1,
      .op 0 (.time 120000), .op 0 .ok, .op 0 .ok, .done 0,
      .start 2 (.check "s" 3600 none), .op 2 .ok, .op 2 (.time 121000), .done 2]
    (fun P => decide (Log.justDone P.log = some (2, .ok true) ∧
      Log.startOf 2 P.log.tail = some (.check "s" 3600 none) ∧
      Log.startOf 1 P.log.tail = some (.invalidateForUser "alice") ∧
      Log.doneOf 1 P.log.tail = some (.ok false) ∧ hasRead 1 "s" "alice" P.log.tail = true))
    (by decide +kernel) checksLater_of_oneReadPerSecond
  obtain ⟨hdone, hfind, hrev, hrevd, hread⟩ := of_decide_eq_true hcheck
  have halways := h sampleState _ P (sessionsKeyed_storeWorld _) hrun
  rw [Log.eq_of_justDone hdone] at halways
  have hpicks := picks_of_hasRead (Log.mem_of_startOf hrev) rfl hread
  exact halways.1 2 _ "s" rfl (Log.mem_of_startOf hfind) rfl
    ⟨1, false, .inr hpicks, Log.mem_of_doneOf hrevd⟩

end Rauthy
