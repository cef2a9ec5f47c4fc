/-
Rauthy/Principal.lean

`rauthy-handlers/src/middleware/principal.rs` and
`rauthy-models/src/entity/principal.rs`: who sends a request.  The middleware finds
the session of the cookie, keeps its time of last use up to date, and hands it to the
handlers, which ask the principal for the rights they need.

API keys are left out: no handler of the model accepts one.
-/
import Rauthy.Sessions
import Rauthy.Users

namespace Rauthy

open Prog

/-- `Session::roles_as_vec` -/
def Session.rolesAsVec (s : Session) : Except ErrorResponse (List String) :=
  match s.roles with
  | none => .error ⟨.notFound, "User '" ++ s.id ++ "' is not assigned to any roles"⟩
  | some roles => .ok (Text.split ',' roles)

structure Principal where
  session : Option Session
  roles : List String
  deriving DecidableEq, Inhabited

/-! ### The middleware -/

/-- These paths check the CSRF token themselves. -/
def isPathCsrfException (path : String) : Bool :=
  Text.endsWith path "/webauthn/register/start" || Text.endsWith path "/webauthn/register/finish"

/-- The session after its use has been noted, which happens every 10 seconds at most. -/
def Session.seen (s : Session) : M ErrorResponse Session := do
  let now ← unixTimestamp
  if s.lastSeen < now - 10 then
    let s := { s with lastSeen := now }
    s.save
    return s
  else return s

/-- The CSRF token that every request but a `GET` has to present. -/
def Session.csrfOk (s : Session) (req : HttpRequest) : Bool :=
  req.isGet || isPathCsrfException req.path || req.csrfToken == some s.csrfToken

/-- `get_session_from_cookie`: no session is not an error. -/
def getSessionFromCookie (data : AppState) (req : HttpRequest) :
    M ErrorResponse (Option Session) :=
  match req.sessionCookie with
  | none => return none
  | some sessionId => do
      match ← attempt (Session.find sessionId) with
      | .error _ => return none
      | .ok session =>
          let remoteIp := if data.sessionValidateIp then req.realIp else none
          let valid ← session.isValid data.sessionTimeout remoteIp
          if valid then
            let session ← session.seen
            return if session.csrfOk req then some session else none
          else return none

/-- The principal that the middleware hands to the handlers. -/
def getPrincipal (data : AppState) (req : HttpRequest) : M ErrorResponse Principal := do
  match ← getSessionFromCookie data req with
  | none => return { session := none, roles := [] }
  | some s => return { session := some s, roles := s.rolesAsVec.toOption.getD [] }

/-! ### Rights -/

namespace Principal

def getSession (p : Principal) : Except ErrorResponse Session :=
  match p.session with
  | some s => .ok s
  | none => .error ⟨.unauthorized, "No valid session"⟩

def isAdmin (p : Principal) : Bool := roleAdmin ∈ p.roles

def hasMfaActive (p : Principal) : Bool := (p.session.map Session.isMfa).getD false

/-- The user of the session, as far as `is_user` compares it. -/
def userId (p : Principal) : Option String := p.session.bind Session.userId

def isUser (p : Principal) (id : String) : Except ErrorResponse Unit :=
  if p.userId ≠ some id then
    .error ⟨.forbidden, "You are not allowed to modify this user"⟩
  else .ok ()

/-- The session, if its state is one of `states`. -/
def validateSessionIn (p : Principal) (states : List SessionState) : Except ErrorResponse Session :=
  match p.session with
  | none => .error ⟨.unauthorized, "No valid session"⟩
  | some s =>
      if s.state ∈ states then .ok s else .error ⟨.unauthorized, "Unauthorized Session"⟩

def validateSessionAuth (p : Principal) : Except ErrorResponse Session :=
  p.validateSessionIn [.auth]

def validateSessionAuthOrInit (p : Principal) : Except ErrorResponse Session :=
  p.validateSessionIn [.auth, .init]

/-- `Principal::validate_admin_session` -/
def validateAdminSession (data : AppState) (p : Principal) : Except ErrorResponse Unit :=
  match p.validateSessionAuth with
  | .error e => .error e
  | .ok _ =>
      if !p.isAdmin then .error ⟨.forbidden, "Rauthy admin access only"⟩
      else if data.adminForceMfa && !p.hasMfaActive then
        .error ⟨.mfaRequired, "Rauthy admin access only allowed with MFA active"⟩
      else .ok ()

theorem validateSessionIn_ok {p : Principal} {states : List SessionState} {s : Session} :
    p.validateSessionIn states = .ok s ↔ p.session = some s ∧ s.state ∈ states := by
  unfold validateSessionIn
  split
  · next h => simp [h]
  · next s' h =>
      by_cases hs : s'.state ∈ states
      · simp only [hs, if_true, Except.ok.injEq, h, Option.some.injEq]
        constructor
        · rintro rfl; exact ⟨rfl, hs⟩
        · exact fun h => h.1
      · simp only [hs, if_false, h, Option.some.injEq]
        constructor
        · rintro ⟨⟩
        · rintro ⟨rfl, h⟩; exact absurd h hs

/-- An admin session is authenticated and, if that is enforced, marked as MFA. -/
theorem validateAdminSession_ok {data : AppState} {p : Principal} {u : Unit}
    (h : p.validateAdminSession data = .ok u) :
    ∃ s, p.session = some s ∧ s.state = .auth ∧ roleAdmin ∈ p.roles ∧
      (data.adminForceMfa = true → s.isMfa = true) := by
  unfold validateAdminSession at h
  split at h
  · cases h
  · next s hs =>
      obtain ⟨hp, hstate⟩ := validateSessionIn_ok.mp hs
      split at h
      · cases h
      · next hadmin =>
          split at h
          · cases h
          · next hmfa =>
              refine ⟨s, hp, by simpa using hstate, by simpa [isAdmin] using hadmin, ?_⟩
              intro hforce
              simpa [hforce, hasMfaActive, hp] using hmfa

end Principal

/-! ### What the middleware writes -/

section Touches

theorem Session.seen_touches (s : Session) :
    Touches [.sessions] [(.sessions, .session)] s.seen := by
  refine touches_bind touches_unixTimestamp fun now => ?_
  split
  · exact touches_bind (Session.save_touches _) fun _ => touches_ret _
  · exact touches_ret _

theorem getPrincipal_touches (data : AppState) (req : HttpRequest) :
    Touches [.sessions] [(.sessions, .session)] (getPrincipal data req) := by
  have hcookie : Touches [.sessions] [(.sessions, .session)] (getSessionFromCookie data req) := by
    unfold getSessionFromCookie
    split
    · exact touches_ret _
    · next sid _ =>
        refine touches_bind (touches_attempt ((Session.find_touches sid).mono (by simp) (by simp)))
          fun x => ?_
        rcases x with e | session
        · exact touches_ret _
        · refine touches_bind (touches_bind touches_unixTimestamp fun _ => touches_ret _)
            fun valid => ?_
          split
          · exact touches_bind session.seen_touches fun _ => touches_ret _
          · exact touches_ret _
  refine touches_bind hcookie fun x => ?_
  rcases x with - | s <;> exact touches_ret _

end Touches

/-! ### What the middleware has seen -/

section Sees

open Pool

variable {G : List (Seen Op Op.Res) → Seen Op Op.Res → Prop} {tr : List (Seen Op Op.Res)}
  {req : HttpRequest} {data : AppState}

/-- The operation has read the session `s` for the cookie `sid`. -/
def ReadsSession (sid : String) (s : Session) (v : Seen Op Op.Res) : Prop :=
  v = ⟨.cacheGet .sessions (Session.cacheIdx sid), .ok (some (.session s))⟩ ∨
    s.id = sid ∧ ∃ p rows, v = ⟨.select .sessions p, .ok (s :: rows)⟩

/-- The session of a cookie may be cached as it was read, and written back with another time of
last use. -/
structure AllowsSessions (G : List (Seen Op Op.Res) → Seen Op Op.Res → Prop) : Prop where
  now : ∀ tr x, G tr ⟨.now, x⟩
  find : ∀ tr p x, G tr ⟨.select .sessions p, x⟩
  get : ∀ tr sid x, G tr ⟨.cacheGet .sessions (Session.cacheIdx sid), x⟩
  read : ∀ tr s x, (∃ p rows, ⟨.select .sessions p, .ok (s :: rows)⟩ ∈ tr) →
    G tr ⟨.cachePut .sessions (Session.cacheIdx s.id) (.session s), x⟩
  seen : ∀ tr sid s lastSeen, (∃ v ∈ tr, ReadsSession sid s v) →
    Sees Op.Possible G (Session.save { s with lastSeen }) (fun _ _ => True) tr

theorem Allows.sessions (hG : Allows G [.sessions] [(.sessions, .session)]) : AllowsSessions G where
  now tr x := hG .now trivial trivial tr x
  find tr p x := hG (.select .sessions p) trivial trivial tr x
  get tr sid x := hG (.cacheGet .sessions (Session.cacheIdx sid)) trivial trivial tr x
  read tr s x _ := hG (.cachePut .sessions (Session.cacheIdx s.id) (.session s))
    (by simp [Op.Touches, CacheVal.slot]) trivial tr x
  seen tr sid s lastSeen _ := sees_of_touches (Session.save_touches _)
    (noDel_bind (noDel_execute _) fun _ => noDel_cachePut _ _ _) hG (by simp) (by simp)

theorem Session.sees_find {sid : String} (hG : AllowsSessions G) :
    Sees Op.Possible G (Session.find sid) (fun s tr' => ∃ v ∈ tr', ReadsSession sid s v) tr := by
  have hload : ∀ tr', Sees Op.Possible G (fetchOne .sessions fun s => s.id == sid)
      (fun s tr'' => s.id = sid ∧ ∃ p rows, ⟨.select .sessions p, .ok (s :: rows)⟩ ∈ tr'')
      tr' := by
    intro tr'
    apply sees_mono (sees_fetchOne fun x => hG.find _ _ x)
    rintro s tr'' - ⟨⟨rows, rfl⟩, hs⟩
    exact ⟨beq_iff_eq.mp hs, _, rows, List.mem_cons_self⟩
  refine sees_mono (sees_cached (fun x => hG.get _ _ x) (fun tr' _ => hload tr') ?_)
    fun s tr' _ h => ?_
  · rintro tr' s x ⟨rfl, hread⟩
    exact hG.read tr' s x hread
  · rcases h with ⟨v, rfl, hv⟩ | ⟨tr₁, ⟨hs, p, rows, hmem⟩, rfl⟩
    · rw [CacheVal.session?_eq_some.mp hv]
      exact ⟨_, List.mem_cons_self, .inl rfl⟩
    · exact ⟨_, List.mem_cons_of_mem _ hmem, .inr ⟨hs, p, rows, rfl⟩⟩

/-- The session of a principal is the one of the cookie, up to its time of last use. -/
def SessionOf (req : HttpRequest) (s : Session) (tr : List (Seen Op Op.Res)) : Prop :=
  ∃ sid s₀, req.sessionCookie = some sid ∧ (∃ v ∈ tr, ReadsSession sid s₀ v) ∧
    ∃ lastSeen, s = { s₀ with lastSeen }

theorem SessionOf.mono {s : Session} {tr' : List (Seen Op Op.Res)} (h : SessionOf req s tr)
    (htr : ∀ v ∈ tr, v ∈ tr') : SessionOf req s tr' := by
  obtain ⟨sid, s₀, hcookie, ⟨v, hv, hread⟩, hs⟩ := h
  exact ⟨sid, s₀, hcookie, ⟨v, htr v hv, hread⟩, hs⟩

/-- The session that the cookie names has been read, it was valid at a time after that, and the
request may change something with it.  The principal has it with another time of last use. -/
def SeesSession (data : AppState) (req : HttpRequest) (s : Session)
    (tr : List (Seen Op Op.Res)) : Prop :=
  ∃ sid, req.sessionCookie = some sid ∧ s.csrfOk req = true ∧
    ∃ tr₂ ms tr₁, tr = tr₂ ++ ⟨.now, ms⟩ :: tr₁ ∧ (∃ v ∈ tr₁, ReadsSession sid s v) ∧
      s.isValidAt (ms / 1000) data.sessionTimeout
        (if data.sessionValidateIp then req.realIp else none) = true

theorem SeesSession.sessionOf {s : Session} (h : SeesSession data req s tr) (lastSeen : Int) :
    SessionOf req { s with lastSeen } tr := by
  obtain ⟨sid, hcookie, -, tr₂, ms, tr₁, rfl, ⟨v, hv, hread⟩, -⟩ := h
  have hmem : v ∈ tr₂ ++ ⟨.now, ms⟩ :: tr₁ := List.mem_append_right _ (List.mem_cons_of_mem _ hv)
  exact ⟨sid, s, hcookie, ⟨v, hmem, hread⟩, lastSeen, rfl⟩

theorem sees_sessionOfCookie (hG : AllowsSessions G) :
    Sees Op.Possible G (getSessionFromCookie data req)
      (fun x tr' => ∀ s, x = some s → ∃ s₀ lastSeen, SeesSession data req s₀ tr' ∧
        s = { s₀ with lastSeen }) tr := by
  unfold getSessionFromCookie
  rcases hcookie : req.sessionCookie with - | sid
  · exact sees_ret fun s hs => by cases hs
  refine sees_bind (sees_tried (Session.sees_find hG)) fun x tr₁ _ hx => ?_
  rcases x with e | s
  · exact sees_ret fun s hs => by cases hs
  obtain ⟨v, hv, hread⟩ := hx s rfl
  refine sees_bind (F := fun valid tr' => valid = true → ∃ ms, tr' = ⟨.now, ms⟩ :: tr₁ ∧
    s.isValidAt (ms / 1000) data.sessionTimeout
      (if data.sessionValidateIp then req.realIp else none) = true) ?_ fun valid tr₂ _ hvalid => ?_
  · refine sees_bind (sees_unixTimestamp (hG.now _)) fun now tr₂ _ ⟨ms, htr, hms⟩ => ?_
    refine sees_ret fun hok => ?_
    rw [hms] at hok
    exact ⟨ms, htr, hok⟩
  rcases hval : valid with - | -
  · exact sees_ret fun s hs => by cases hs
  obtain ⟨ms, rfl, hok⟩ := hvalid hval
  -- from here on the session may have another time of last use
  have hseen : Sees Op.Possible G s.seen (fun s' _ => ∃ lastSeen, s' = { s with lastSeen })
      (⟨.now, ms⟩ :: tr₁) := by
    refine sees_bind (sees_unixTimestamp (hG.now _)) fun now tr₃ hsub _ => ?_
    split
    · have hmem := hsub v (List.mem_cons_of_mem _ hv)
      exact sees_bind (hG.seen tr₃ sid s now ⟨v, hmem, hread⟩) fun _ _ _ _ => sees_ret ⟨now, rfl⟩
    · exact sees_ret ⟨s.lastSeen, rfl⟩
  refine sees_bind hseen.suffix fun s' tr₃ _ ⟨⟨tr₄, htr⟩, lastSeen, hs'⟩ => ?_
  refine sees_ret fun s'' hs'' => ?_
  split at hs''
  · next hcsrf =>
      cases hs''
      refine ⟨s, lastSeen, ⟨sid, hcookie, ?_, tr₄, ms, tr₁, htr.symm, ⟨v, hv, hread⟩, hok⟩, hs'⟩
      rw [hs'] at hcsrf
      exact hcsrf
  · cases hs''

theorem sees_getPrincipal (hG : AllowsSessions G) :
    Sees Op.Possible G (getPrincipal data req)
      (fun p tr' => ∀ s, p.session = some s → SessionOf req s tr') tr := by
  refine sees_bind (sees_sessionOfCookie hG) fun x tr₁ _ hx => ?_
  rcases x with - | s
  · exact sees_ret fun s h => by cases h
  · refine sees_ret fun s' h => ?_
    cases h
    obtain ⟨s₀, lastSeen, hseen, rfl⟩ := hx s rfl
    exact hseen.sessionOf lastSeen

end Sees

end Rauthy
