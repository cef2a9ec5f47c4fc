/-
Rauthy/Sessions.lean

`rauthy-models/src/entity/sessions.rs`: sessions live in the table `sessions` and,
by id, in the cache `sessions`.  Reads prefer the cache; writers store the whole
session in both.  `invalidate` is the exception: it updates two columns of the row
and removes the key from the 12-hour cache.
-/
import Mathlib.Data.List.Sort
import Rauthy.AppState
import Rauthy.Monad

namespace Rauthy

open Prog

/-- The attributes of the cookies that the source builds. -/
structure Cookie where
  name : String
  value : String
  httpOnly : Bool
  secure : Bool
  path : String
  /-- seconds -/
  maxAge : Int
  deriving DecidableEq, Inhabited

namespace CacheVal

def session? : CacheVal → Option Session
  | session v => some v
  | _ => none

@[simp] theorem session?_eq_some {v : CacheVal} {s : Session} :
    v.session? = some s ↔ v = session s := by
  cases v <;> simp [session?]

end CacheVal

namespace Session

/-! ### CRUD -/

/-- `Session::cache_idx` -/
def cacheIdx (id : String) : String := "session_" ++ id

theorem cacheIdx_inj {a b : String} : cacheIdx a = cacheIdx b ↔ a = b :=
  String.append_right_inj _

def delete (s : Session) : M ErrorResponse Unit := do
  execute [.delete .sessions fun r => r.id == s.id]
  cacheDel .sessions (cacheIdx s.id)

def deleteByUser (userId : String) : M ErrorResponse Unit := do
  let sessions ← select .sessions fun s => s.userId == some userId
  -- no 'returning' statement, for compatibility with sqlite
  execute [.delete .sessions fun s => s.userId == some userId]
  forEach (fun s => cacheDel .sessions (cacheIdx s.id)) sessions

/-- Returns a session by id. -/
def find (id : String) : M ErrorResponse Session :=
  cached .sessions (cacheIdx id) CacheVal.session? .session
    (fetchOne .sessions fun s => s.id == id)

/-- Not cached: only used in the admin UI and by the mass invalidations. -/
def findAll : M ErrorResponse (List Session) := do
  let sessions ← select .sessions fun _ => true
  return sessions.insertionSort fun a b => b.exp ≤ a.exp

/-- Saves a session: `insert or replace` of all columns, then the cache. -/
def save (s : Session) : M ErrorResponse Unit := do
  execute [.upsert .sessions s]
  cachePut .sessions (cacheIdx s.id) (.session s)

/-- The first loop of `invalidate_for_user`; the result is `removed`. -/
def invalidateEach (now : Int) (uid : String) : List Session → M ErrorResponse (List String)
  | [] => return []
  | s :: ss =>
      if s.userId = some uid then do
        save { s with exp := now }
        let removed ← invalidateEach now uid ss
        return s.id :: removed
      else invalidateEach now uid ss

/-- Invalidates all sessions of a user by setting the expiry to `now`. -/
def invalidateForUser (uid : String) : M ErrorResponse Unit := do
  let now ← unixTimestamp
  let sessions ← findAll
  let removed ← invalidateEach now uid sessions
  forEach (fun id => cacheDel .sessions (cacheIdx id)) removed

/-- The first loop of `invalidate_all`: an error is only logged. -/
def invalidateAllEach (now : Int) : List Session → M ErrorResponse (List String)
  | [] => return []
  | s :: ss =>
      if s.exp > now then do
        ignoreErr (save { s with exp := now })
        let removed ← invalidateAllEach now ss
        return s.id :: removed
      else invalidateAllEach now ss

/-- Invalidates all sessions by setting the expiry to `now`. -/
def invalidateAll : M ErrorResponse Unit := do
  let now ← unixTimestamp
  let sessions ← findAll
  let removed ← invalidateAllEach now sessions
  forEach (fun id => cacheDel .sessions (cacheIdx id)) removed

/-! ### Methods -/

/-- `Session::new`: `expIn` is the lifetime in seconds. -/
def new (expIn : Int) (remoteIp : Option String) : M ErrorResponse Session := do
  let id ← getRand 32
  let csrfToken ← getRand 32
  let now ← unixTimestamp
  return { id, csrfToken, userId := none, roles := none, groups := none, isMfa := false,
           state := .init, exp := now + expIn, lastSeen := now, remoteIp }

/-- `Session::invalidate` after it has read the clock.  The key is removed from the
12-hour cache, not from the cache of the sessions. -/
def invalidateAt (s : Session) (exp : Int) : M ErrorResponse (Session × Cookie) := do
  let idx := cacheIdx s.id
  execute [.update .sessions (fun r => r.id == s.id)
    fun r => { r with exp, state := .loggedOut }]
  cacheDel .c12hr idx
  return ({ s with exp, state := .loggedOut },
    { name := "rauthy-session", value := s.id, httpOnly := true, secure := true,
      path := "/auth", maxAge := 0 })

/-- `Session::invalidate`: logs the session out. -/
def invalidate (s : Session) : M ErrorResponse (Session × Cookie) := do
  let exp ← unixTimestamp
  s.invalidateAt exp

/-- `Session::is_valid` at the time `now`: not expired, not timed out, and for open
and authenticated sessions from the same address. -/
def isValidAt (s : Session) (now sessionTimeout : Int) (remoteIp : Option String) : Bool :=
  if s.exp < now then false
  else if s.lastSeen < now - sessionTimeout then false
  else if s.state = .unknown then false
  else
    match remoteIp with
    | some ip =>
        !((s.state = .opened || s.state = .auth) && s.remoteIp != some ip)
    | none => true

def isValid (s : Session) (sessionTimeout : Int) (remoteIp : Option String) :
    M ErrorResponse Bool := do
  let now ← unixTimestamp
  return s.isValidAt now sessionTimeout remoteIp

def setMfa (s : Session) (value : Bool) : M ErrorResponse Session := do
  let s := { s with isMfa := value }
  save s
  return s

/-- `Session::validate_user_expiry`: a session does not outlive its user. -/
def validateUserExpiry (s : Session) (user : User) : M ErrorResponse Session :=
  match user.userExpires with
  | none => return s
  | some ts => do
      let now ← unixTimestamp
      if now > ts then fail (err .forbidden "User has expired")
      else if ts < s.exp then return { s with exp := ts }
      else return s

/-- A session is not valid in any second after the one it expires in. -/
theorem isValidAt_eq_false_of_exp_lt {s : Session} {now : Int} (h : s.exp < now)
    (timeout : Int) (ip : Option String) : s.isValidAt now timeout ip = false := by
  simp [isValidAt, h]

/-! ### What they write -/

section Touches

theorem save_touches (s : Session) : Touches [.sessions] [(.sessions, .session)] (save s) :=
  touches_bind (touches_execute (by simp [DbWrite.table])) fun _ =>
    touches_cachePut (by simp [CacheVal.slot]) _

theorem find_touches (id : String) : Touches [] [(.sessions, .session)] (find id) :=
  touches_cached (touches_fetchOne _ _) (by simp [CacheVal.slot])

theorem invalidateEach_touches (now : Int) (uid : String) (l : List Session) :
    Touches [.sessions] [(.sessions, .session)] (invalidateEach now uid l) := by
  induction l with
  | nil => trivial
  | cons s l ih =>
      unfold invalidateEach
      split
      · exact touches_bind (save_touches _) fun _ => touches_bind ih fun _ => touches_ret _
      · exact ih

theorem invalidateForUser_touches (uid : String) :
    Touches [.sessions] [(.sessions, .session)] (invalidateForUser uid) := by
  refine touches_bind touches_unixTimestamp fun now => ?_
  refine touches_bind (touches_bind (touches_select _ _) fun _ => touches_ret _) fun l => ?_
  refine touches_bind (invalidateEach_touches _ _ _) fun removed => ?_
  exact within_forEach fun id _ => touches_cacheDel _ _

theorem invalidateEach_spares {c : CacheName} (hc : CacheName.sessions ≠ c) (now : Int)
    (uid : String) (ss : List Session) : Spares c (invalidateEach now uid ss) := by
  induction ss with
  | nil => trivial
  | cons s ss ih =>
      unfold invalidateEach
      split
      · have hsave : ∀ s : Session, Spares c s.save := fun s =>
          spares_bind (spares_execute _) fun _ => spares_cachePut hc _ _
        exact spares_bind (hsave _) fun _ => spares_bind ih fun _ => trivial
      · exact ih

theorem invalidateForUser_spares {c : CacheName} (hc : CacheName.sessions ≠ c) (uid : String) :
    Spares c (invalidateForUser uid) := by
  refine spares_bind spares_unixTimestamp fun _ => spares_bind ?_ fun _ => ?_
  · exact spares_bind (spares_select _ _) fun _ => trivial
  · refine spares_bind (invalidateEach_spares hc _ _ _) fun _ => ?_
    exact within_forEach fun _ _ => spares_cacheDel hc _

theorem setMfa_touches (s : Session) (v : Bool) :
    Touches [.sessions] [(.sessions, .session)] (setMfa s v) :=
  touches_bind (save_touches _) fun _ => touches_ret _

theorem validateUserExpiry_touches (s : Session) (u : User) :
    Touches [] [] (validateUserExpiry s u) := by
  unfold validateUserExpiry
  split
  · exact touches_ret _
  · refine touches_bind touches_unixTimestamp fun now => ?_
    split
    · exact touches_fail _
    · split <;> exact touches_ret _

end Touches

end Session

end Rauthy
