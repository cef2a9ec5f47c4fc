/-
Rauthy/AuthorizePage.lean

`GET /oidc/authorize` in `rauthy-handlers/src/oidc.rs`: the page a client sends its users to.
A session that is authenticated already gets a page that fetches a code right away; a new
session is forced by `prompt=login`, or by a `max_age` that has passed.

The decision is made after the MFA cookie has been looked at, and a cookie of a user with
passkeys takes the force back: this user would have to use a passkey anyway.  But a page that
refreshes the session asks for none.

Main results:
  * `authorize_page`: the requests whose page does as `prompt` and `max_age` say;
  * `prompt_ignored`: three requests whose page does not.
-/
import Rauthy.AuthProviders
import Rauthy.Principal

namespace Rauthy

variable {r : Except (Fault ErrorResponse) AuthorizeAnswer}

open Prog

/-! ### The handler -/

structure AuthRequest where
  clientId : String
  redirectUri : String
  codeChallenge : Option String
  codeChallengeMethod : Option String
  maxAge : Option Int
  prompt : Option String
  deriving DecidableEq, Inhabited

inductive FrontendAction where
  | refresh
  | mfaLogin (email : String)
  | none
  deriving DecidableEq

/-- The answer: an error page, or the login page with its CSRF token and, if a session has been
created, with its cookie. -/
inductive AuthorizeAnswer where
  | errorHtml (e : ErrorResponse)
  | authorizeHtml (csrf : String) (action : FrontendAction) (session : Option Session)
      (headerOrigin : Option String)
  deriving DecidableEq

/-- The value of a sum of 64 bits; an overflow wraps around. -/
def addI64 (a b : Int) : Int := (a + b).bmod (2 ^ 64)

/-- `session_created` -/
def sessionCreated (data : AppState) (s : Session) : Int := addI64 s.exp (-data.sessionLifetime)

/-- `Utc::now().timestamp() > session_created + max_age` -/
def ageExceeded (data : AppState) (s : Session) (maxAge now : Int) : Bool :=
  now > addI64 (sessionCreated data s) maxAge

/-- `force_new_session`, before the MFA cookie is looked at. -/
def forceNewSession (data : AppState) (q : AuthRequest) (principal : Principal) :
    M ErrorResponse Bool :=
  if q.prompt = some "login" then return true
  else
    match q.maxAge with
    | none => return false
    | some maxAge =>
        match principal.session with
        | none => return true
        | some s => do
            let now ← unixTimestamp
            return ageExceeded data s maxAge now

/-- The e-mail of the MFA cookie, if it is one of a user with passkeys. -/
def mfaLoginOf (data : AppState) (req : HttpRequest) : M ErrorResponse (Option String) := do
  match ← attempt (WebauthnCookie.parseValidate data req.mfaCookie) with
  | .error _ => return none
  | .ok cookie =>
      match ← attempt (User.findByEmail data cookie.email) with
      | .error _ => return none
      | .ok user => return if user.hasWebauthnEnabled then some cookie.email else none

/-- What the login page does at once: with an MFA cookie, it starts a passkey login. -/
def actionOf : Option String → FrontendAction
  | some email => .mfaLogin email
  | none => .none

/-- The page of a new session. -/
def newSessionPage (data : AppState) (req : HttpRequest) (action : FrontendAction)
    (headerOrigin : Option String) : M ErrorResponse AuthorizeAnswer := do
  let session ← Session.new data.sessionLifetime req.realIp
  match ← attempt (Session.save session) with
  | .error e => return .errorHtml e
  | .ok _ => return .authorizeHtml session.csrfToken action (some session) headerOrigin

/-- The page, once it is known whether a new session is forced. -/
def authorizePage (data : AppState) (req : HttpRequest) (q : AuthRequest) (principal : Principal)
    (headerOrigin : Option String) (forced : Bool) (mfaLogin : Option String) :
    M ErrorResponse AuthorizeAnswer :=
  -- with an MFA login, no new session is forced
  let forced := forced && mfaLogin.isNone
  if !forced && q.prompt = some "none" then
    return .errorHtml ⟨.unauthorized, "login_required"⟩
  else do
    let _ ← AuthProvider.getAllJsonTemplate data
    match forced, principal.validateSessionAuth with
    | false, .ok session => return .authorizeHtml session.csrfToken .refresh none headerOrigin
    | _, _ => newSessionPage data req (actionOf mfaLogin) headerOrigin

/-- `get_authorize` -/
def getAuthorize (data : AppState) (req : HttpRequest) (q : AuthRequest) (principal : Principal) :
    M ErrorResponse AuthorizeAnswer := do
  match ← attempt (validateAuthReqParam data req q.clientId q.redirectUri q.codeChallenge
      q.codeChallengeMethod) with
  | .error e => return .errorHtml e
  | .ok (_, headerOrigin) =>
      let forced ← forceNewSession data q principal
      let mfaLogin ← mfaLoginOf data req
      authorizePage data req q principal headerOrigin forced mfaLogin

/-! ### What is asked for -/

section Asked

variable (data : AppState) (q : AuthRequest) (principal : Principal) (authAt now : Int)

/-- The age of the session is compared with `max_age` as it is, without an overflow. -/
def AgeExact : Prop :=
  q.prompt ≠ some "login" → ∀ m s, q.maxAge = some m → principal.session = some s →
    sessionCreated data s = s.exp - data.sessionLifetime ∧
      addI64 (sessionCreated data s) m = s.exp - data.sessionLifetime + m

/-- The user has to authenticate again, who was authenticated at the time `authAt`. -/
def MustReauthenticate : Prop :=
  q.prompt = some "login" ∨
    ∃ m s, q.maxAge = some m ∧ principal.session = some s ∧ now > authAt + m

/-- The answer does as `prompt` and `max_age` say. -/
structure Proper (a : AuthorizeAnswer) : Prop where
  /-- no code without a login, if the user has to authenticate again -/
  refresh : MustReauthenticate q principal authAt now →
    ∀ csrf s o, a ≠ .authorizeHtml csrf .refresh s o
  /-- no login page, if there must be no interaction -/
  silent : q.prompt = some "none" →
    ∀ csrf action s o, a = .authorizeHtml csrf action s o → action = .refresh
  exact : AgeExact data q principal

def InI64 (x : Int) : Prop := -2 ^ 63 ≤ x ∧ x < 2 ^ 63

/-- Both sums of the age fit into 64 bits. -/
def InRange : Prop :=
  q.prompt ≠ some "login" → ∀ m s, q.maxAge = some m → principal.session = some s →
    InI64 (s.exp - data.sessionLifetime) ∧ InI64 (s.exp - data.sessionLifetime + m)

/-- The request and its session, with the e-mail of the MFA cookie if that is one of a user with
passkeys: neither the cookie nor the age of the session stands in the way. -/
structure AsAsked (mfaLogin : Option String) : Prop where
  inRange : InRange data q principal
  /-- no cookie, if a user with an authenticated session has to authenticate again -/
  noCookie : MustReauthenticate q principal authAt now → q.prompt ≠ some "none" →
    (∃ s, principal.validateSessionAuth = .ok s) → mfaLogin = none
  /-- a young session, or a cookie, if there must be no interaction -/
  young : q.prompt = some "none" → mfaLogin = none → ∀ m, q.maxAge = some m →
    ∃ s, principal.session = some s ∧ ¬ now > s.exp - data.sessionLifetime + m

/-- `force_new_session`, as a fact about the request at the time `now`. -/
def Forced : Prop :=
  q.prompt = some "login" ∨ ∃ m, q.maxAge = some m ∧
    ∀ s, principal.session = some s → now > s.exp - data.sessionLifetime + m

end Asked

section Page

variable {data : AppState} {req : HttpRequest} {q : AuthRequest} {principal : Principal}
  {authAt now : Int} {mfaLogin : Option String} {forced : Bool} {w w' : World}
  {a : AuthorizeAnswer}
  {o : Option String}

theorem addI64_eq_iff {x y : Int} : addI64 x y = x + y ↔ InI64 (x + y) := by
  unfold addI64 InI64
  constructor
  · intro h
    have hlow := Int.le_bmod (x := x + y) (m := 2 ^ 64) (by decide)
    have hhigh := Int.bmod_lt (x := x + y) (m := 2 ^ 64) (by decide)
    rw [h] at hlow hhigh
    omega
  · rintro ⟨hlow, hhigh⟩
    exact Int.bmod_eq_of_le (by omega) (by omega)

theorem ageExact_iff : AgeExact data q principal ↔ InRange data q principal := by
  unfold AgeExact InRange
  refine forall_congr' fun _ => forall_congr' fun m => forall_congr' fun s =>
    forall_congr' fun _ => forall_congr' fun _ => ?_
  have hcreated : sessionCreated data s = s.exp - data.sessionLifetime ↔
      InI64 (s.exp - data.sessionLifetime) := by
    rw [Int.sub_eq_add_neg]
    exact addI64_eq_iff
  constructor
  · rintro ⟨h₁, h₂⟩
    rw [h₁] at h₂
    exact ⟨hcreated.mp h₁, addI64_eq_iff.mp h₂⟩
  · rintro ⟨h₁, h₂⟩
    have h₃ := hcreated.mpr h₁
    refine ⟨h₃, ?_⟩
    rw [h₃]
    exact addI64_eq_iff.mpr h₂

/-- A page that must not be a refresh is forced to be a new session: a session is authenticated
after it has been created. -/
theorem MustReauthenticate.toForced
    (hauth : ∀ s, principal.session = some s → s.exp - data.sessionLifetime ≤ authAt)
    (h : MustReauthenticate q principal authAt now) : Forced data q principal now := by
  rcases h with hl | ⟨m, s, hm, hs, hnow⟩
  · exact .inl hl
  · refine .inr ⟨m, hm, fun s' hs' => ?_⟩
    have := hauth s' hs'
    omega

theorem exec_forceNewSession (hexact : AgeExact data q principal)
    (h : Exec sem (forceNewSession data q principal) w (.ok forced) w') :
    ∃ ms, w.clock ≤ ms ∧ ms ≤ w'.clock ∧
      (forced = true ↔ Forced data q principal (ms / 1000)) := by
  have hclock : w.clock ≤ w'.clock := exec_clock h
  unfold forceNewSession at h
  split at h
  · next hlogin =>
      obtain ⟨hf, rfl⟩ := h
      cases hf
      exact ⟨_, Int.le_refl _, hclock, iff_of_true rfl (.inl hlogin)⟩
  next hlogin =>
  split at h
  · next hm =>
      obtain ⟨hf, rfl⟩ := h
      cases hf
      refine ⟨_, Int.le_refl _, hclock, iff_of_false (by simp) ?_⟩
      rintro (hl | ⟨m, hm', -⟩)
      · exact hlogin hl
      · rw [hm] at hm'
        cases hm'
  next m hm =>
  split at h
  · next hs =>
      obtain ⟨hf, rfl⟩ := h
      cases hf
      refine ⟨_, Int.le_refl _, hclock, iff_of_true rfl (.inr ⟨m, hm, fun s hs' => ?_⟩)⟩
      rw [hs] at hs'
      cases hs'
  · next s hs =>
      obtain ⟨now, _, hnow, hf, rfl⟩ := exec_bind_ok.mp h
      cases hf
      obtain ⟨ms, rfl, hle, rfl⟩ := exec_unixTimestamp.mp hnow
      obtain ⟨-, hsum⟩ := hexact hlogin m s hm hs
      refine ⟨ms, hle, Int.le_refl _, ?_⟩
      rw [ageExceeded, hsum, decide_eq_true_iff]
      constructor
      · intro hage
        refine .inr ⟨m, hm, fun s' hs' => ?_⟩
        rw [hs] at hs'
        cases hs'
        exact hage
      · rintro (hl | ⟨m', hm', hall⟩)
        · exact absurd hl hlogin
        · rw [hm] at hm'
          cases hm'
          exact hall s hs

/-- The page of a new session is a login page, or an error if the session cannot be saved. -/
theorem exec_newSessionPage {action : FrontendAction}
    (h : Exec sem (newSessionPage data req action o) w (.ok a) w') :
    (∃ e, a = .errorHtml e) ∨ ∃ csrf s, a = .authorizeHtml csrf action (some s) o := by
  obtain ⟨session, _, -, h₁⟩ := exec_bind_ok.mp h
  obtain ⟨r, _, -, h₂⟩ := exec_bind_ok.mp h₁
  rcases r with e | u
  · obtain ⟨ha, -⟩ := h₂
    exact .inl ⟨e, Except.ok.inj ha⟩
  · obtain ⟨ha, -⟩ := h₂
    exact .inr ⟨_, _, Except.ok.inj ha⟩

/-- The pages: an error, a refresh of the session that is authenticated if no new one is forced,
or a login page, which is never one of a request without interaction unless it is forced. -/
theorem exec_authorizePage
    (h : Exec sem (authorizePage data req q principal o forced mfaLogin) w (.ok a) w') :
    (∃ e, a = .errorHtml e) ∨
    (forced = true → mfaLogin ≠ none) ∧ q.prompt ≠ some "none" ∧
      (∃ s, principal.validateSessionAuth = .ok s ∧
        a = .authorizeHtml s.csrfToken .refresh none o) ∨
    ((forced = true ∧ mfaLogin = none) ∨
      q.prompt ≠ some "none" ∧ ∀ s, principal.validateSessionAuth ≠ .ok s) ∧
      ∃ csrf s, a = .authorizeHtml csrf (actionOf mfaLogin) (some s) o := by
  unfold authorizePage at h
  simp only at h
  split at h
  · obtain ⟨ha, -⟩ := h
    exact .inl ⟨_, Except.ok.inj ha⟩
  next hsilent =>
  obtain ⟨_, _, -, h₁⟩ := exec_bind_ok.mp h
  split at h₁
  · next session hforced hauth =>
      obtain ⟨ha, -⟩ := h₁
      refine .inr (.inl ⟨?_, ?_, session, hauth, Except.ok.inj ha⟩)
      · rintro rfl rfl
        cases hforced
      · intro hp
        rw [hforced, hp] at hsilent
        exact hsilent rfl
  · next hno =>
      refine (exec_newSessionPage h₁).imp_right fun hpage => .inr ⟨?_, hpage⟩
      by_cases hforced : (forced && mfaLogin.isNone) = true
      · left
        simpa using hforced
      · right
        have hf : (forced && mfaLogin.isNone) = false := Bool.eq_false_of_not_eq_true hforced
        refine ⟨fun hp => ?_, fun s hs => hno s hf hs⟩
        rw [hf, hp] at hsilent
        exact hsilent rfl

/-- A page in terms of the request: what `exec_authorizePage` says of the flag. -/
theorem authorizePage_cases (hforced : forced = true ↔ Forced data q principal now)
    (h : Exec sem (authorizePage data req q principal o forced mfaLogin) w (.ok a) w') :
    (∃ e, a = .errorHtml e) ∨
    (Forced data q principal now → mfaLogin ≠ none) ∧ q.prompt ≠ some "none" ∧
      (∃ s, principal.validateSessionAuth = .ok s) ∧
      (∃ csrf s o, a = .authorizeHtml csrf .refresh s o) ∨
    (Forced data q principal now ∧ mfaLogin = none ∨
      q.prompt ≠ some "none" ∧ ∀ s, principal.validateSessionAuth ≠ .ok s) ∧
      ∃ csrf action s o, action ≠ .refresh ∧ a = .authorizeHtml csrf action s o := by
  rcases exec_authorizePage h with herr | ⟨hf, hp, s, hs, ha⟩ | ⟨hf, csrf, s, ha⟩
  · exact .inl herr
  · refine .inr (.inl ⟨fun hF => hf (hforced.mpr hF), hp, ⟨s, hs⟩, _, _, _, ha⟩)
  · refine .inr (.inr ⟨hf.imp_left fun ⟨hf, hm⟩ => ⟨hforced.mp hf, hm⟩, csrf, _, _, _, ?_, ha⟩)
    cases mfaLogin <;> intro hrefresh <;> cases hrefresh

/-- A page that refreshes the session, or asks for a login: it is proper exactly if things are as
asked. -/
theorem proper_iff (hauth : ∀ s, principal.session = some s → s.exp - data.sessionLifetime ≤ authAt)
    (hexact : AgeExact data q principal)
    (hpage : (Forced data q principal now → mfaLogin ≠ none) ∧ q.prompt ≠ some "none" ∧
        (∃ s, principal.validateSessionAuth = .ok s) ∧
        (∃ csrf s o, a = .authorizeHtml csrf .refresh s o) ∨
      (Forced data q principal now ∧ mfaLogin = none ∨
        q.prompt ≠ some "none" ∧ ∀ s, principal.validateSessionAuth ≠ .ok s) ∧
        ∃ csrf action s o, action ≠ .refresh ∧ a = .authorizeHtml csrf action s o) :
    Proper data q principal authAt now a ↔ AsAsked data q principal authAt now mfaLogin := by
  have hrange := ageExact_iff.mp hexact
  rcases hpage with ⟨hforced, hprompt, hsession, csrf, s, o, ha⟩ |
      ⟨hforced, csrf, action, s, o, haction, ha⟩
  · -- a refresh is wrong exactly if the cookie has taken the force back
    constructor
    · intro h
      refine ⟨hrange, fun hmust _ _ => ?_, fun hp => absurd hp hprompt⟩
      exact absurd ha (h.refresh hmust csrf s o)
    · intro h
      refine ⟨fun hmust => ?_, fun hp => absurd hp hprompt, hexact⟩
      exact absurd (h.noCookie hmust hprompt hsession) (hforced (hmust.toForced hauth))
  · -- a login page is wrong exactly if there must be no interaction
    have hno : ∀ csrf s o, a ≠ .authorizeHtml csrf .refresh s o := by
      intro csrf' s' o' ha'
      rw [ha] at ha'
      exact haction (AuthorizeAnswer.authorizeHtml.inj ha').2.1
    constructor
    · intro h
      refine ⟨hrange, fun hmust hp hs => ?_, fun hp => ?_⟩
      · rcases hforced with ⟨-, hm⟩ | ⟨-, hnone⟩
        · exact hm
        · obtain ⟨s, hs⟩ := hs
          exact absurd hs (hnone s)
      · exact absurd (h.silent hp csrf action s o ha) haction
    · intro h
      refine ⟨fun _ => hno, fun hp => ?_, hexact⟩
      rcases hforced with ⟨hF, hm⟩ | ⟨hp', -⟩
      · rcases hF with hl | ⟨m, hmax, hall⟩
        · rw [hp] at hl
          exact absurd hl (by decide)
        · obtain ⟨s', hs', hyoung⟩ := h.young hp hm m hmax
          exact absurd (hall s' hs') hyoung
      · exact absurd hp hp'

end Page

/-! ### The answers -/

section Answers

variable {data : AppState} {req : HttpRequest} {q : AuthRequest} {principal : Principal}
  {w w' : World} {a : AuthorizeAnswer}

/-- The e-mail that the MFA cookie of the request brings in.  The cookie is read, and its user is
looked up; it counts if the user is found and has passkeys. -/
def CookieLogin (data : AppState) (req : HttpRequest) (w w' : World) (mfaLogin : Option String) :
    Prop :=
  (∃ e, Exec sem (WebauthnCookie.parseValidate data req.mfaCookie) w (.error (.err e)) w' ∧
    mfaLogin = none) ∨
  ∃ cookie w₁, Exec sem (WebauthnCookie.parseValidate data req.mfaCookie) w (.ok cookie) w₁ ∧
    ((∃ e, Exec sem (User.findByEmail data cookie.email) w₁ (.error (.err e)) w' ∧
        mfaLogin = none) ∨
      ∃ user, Exec sem (User.findByEmail data cookie.email) w₁ (.ok user) w' ∧
        mfaLogin = if user.hasWebauthnEnabled then some cookie.email else none)

theorem exec_mfaLoginOf {mfaLogin : Option String} :
    Exec sem (mfaLoginOf data req) w (.ok mfaLogin) w' ↔ CookieLogin data req w w' mfaLogin := by
  constructor
  · intro h
    obtain ⟨r, w₁, hcookie, h₁⟩ := exec_bind_ok.mp h
    rcases r with e | cookie
    · obtain ⟨hm, rfl⟩ := h₁
      exact .inl ⟨e, exec_tried.mp hcookie, Except.ok.inj hm⟩
    obtain ⟨r, w₂, huser, h₂⟩ := exec_bind_ok.mp h₁
    refine .inr ⟨cookie, w₁, exec_tried.mp hcookie, ?_⟩
    rcases r with e | user
    · obtain ⟨hm, rfl⟩ := h₂
      exact .inl ⟨e, exec_tried.mp huser, Except.ok.inj hm⟩
    · obtain ⟨hm, rfl⟩ := h₂
      exact .inr ⟨user, exec_tried.mp huser, Except.ok.inj hm⟩
  · rintro (⟨e, hcookie, rfl⟩ | ⟨cookie, w₁, hcookie, ⟨e, huser, rfl⟩ | ⟨user, huser, rfl⟩⟩)
    · exact exec_bind_ok.mpr ⟨.error e, w', exec_tried.mpr hcookie, rfl, rfl⟩
    · refine exec_bind_ok.mpr ⟨.ok cookie, w₁, exec_tried.mpr hcookie, ?_⟩
      exact exec_bind_ok.mpr ⟨.error e, w', exec_tried.mpr huser, rfl, rfl⟩
    · refine exec_bind_ok.mpr ⟨.ok cookie, w₁, exec_tried.mpr hcookie, ?_⟩
      exact exec_bind_ok.mpr ⟨.ok user, w', exec_tried.mpr huser, rfl, rfl⟩

/-- A request whose client has been accepted: the age of the session decides whether a new one is
forced, then the cookie is looked at, then the page is built. -/
structure PageRun (data : AppState) (req : HttpRequest) (q : AuthRequest) (principal : Principal)
    (headerOrigin : Option String) (forced : Bool) (mfaLogin : Option String)
    (w₁ w₂ w₃ : World) (a : AuthorizeAnswer) (w' : World) : Prop where
  force : Exec sem (forceNewSession data q principal) w₁ (.ok forced) w₂
  cookie : CookieLogin data req w₂ w₃ mfaLogin
  page : Exec sem (authorizePage data req q principal headerOrigin forced mfaLogin) w₃ (.ok a) w'

theorem exec_getAuthorize : Exec sem (getAuthorize data req q principal) w (.ok a) w' ↔
    (∃ e, Exec sem (validateAuthReqParam data req q.clientId q.redirectUri q.codeChallenge
        q.codeChallengeMethod) w (.error (.err e)) w' ∧ a = .errorHtml e) ∨
    ∃ client o w₁, Exec sem (validateAuthReqParam data req q.clientId q.redirectUri
        q.codeChallenge q.codeChallengeMethod) w (.ok (client, o)) w₁ ∧
      ∃ forced mfaLogin w₂ w₃,
        PageRun data req q principal o forced mfaLogin w₁ w₂ w₃ a w' := by
  constructor
  · intro h
    obtain ⟨r, w₁, hx, h₁⟩ := exec_bind_ok.mp h
    rcases r with e | ⟨client, o⟩
    · obtain ⟨ha, rfl⟩ := h₁
      exact .inl ⟨e, exec_tried.mp hx, Except.ok.inj ha⟩
    obtain ⟨forced, w₂, hforced, h₂⟩ := exec_bind_ok.mp h₁
    obtain ⟨mfaLogin, w₃, hmfa, h₃⟩ := exec_bind_ok.mp h₂
    exact .inr ⟨client, o, w₁, exec_tried.mp hx, forced, mfaLogin, w₂, w₃, hforced,
      exec_mfaLoginOf.mp hmfa, h₃⟩
  · rintro (⟨e, hx, rfl⟩ | ⟨client, o, w₁, hx, forced, mfaLogin, w₂, w₃, hrun⟩)
    · exact exec_bind_ok.mpr ⟨.error e, w', exec_tried.mpr hx, rfl, rfl⟩
    · refine exec_bind_ok.mpr ⟨.ok (client, o), w₁, exec_tried.mpr hx, ?_⟩
      refine exec_bind_ok.mpr ⟨forced, w₂, hrun.force, ?_⟩
      exact exec_bind_ok.mpr ⟨mfaLogin, w₃, exec_mfaLoginOf.mpr hrun.cookie, hrun.page⟩

/-- **The page of the authorization endpoint.**  If the client is accepted, it does as `prompt`
and `max_age` say exactly if neither the MFA cookie nor the age of the session stands in the way,
or, for an error page, if the age does not overflow.  The session was authenticated at the time
`authAt`, which is not before it was created. -/
theorem authorize_page {authAt : Int}
    (hauth : ∀ s, principal.session = some s → s.exp - data.sessionLifetime ≤ authAt) :
    (Exec sem (getAuthorize data req q principal) w (.ok a) w' ↔
      (∃ e, Exec sem (validateAuthReqParam data req q.clientId q.redirectUri q.codeChallenge
          q.codeChallengeMethod) w (.error (.err e)) w' ∧ a = .errorHtml e) ∨
      ∃ client o w₁, Exec sem (validateAuthReqParam data req q.clientId q.redirectUri
          q.codeChallenge q.codeChallengeMethod) w (.ok (client, o)) w₁ ∧
        ∃ forced mfaLogin w₂ w₃,
          PageRun data req q principal o forced mfaLogin w₁ w₂ w₃ a w') ∧
    ∀ o forced mfaLogin w₁ w₂ w₃, PageRun data req q principal o forced mfaLogin w₁ w₂ w₃ a w' →
      ∃ ms, w₁.clock ≤ ms ∧ ms ≤ w₂.clock ∧
        ((∃ e, a = .errorHtml e) →
          (Proper data q principal authAt (ms / 1000) a ↔ InRange data q principal)) ∧
        ((¬ ∃ e, a = .errorHtml e) →
          (Proper data q principal authAt (ms / 1000) a ↔
            AsAsked data q principal authAt (ms / 1000) mfaLogin)) := by
  refine ⟨exec_getAuthorize, fun o forced mfaLogin w₁ w₂ w₃ hrun => ?_⟩
  by_cases hexact : AgeExact data q principal
  · obtain ⟨ms, hle, hge, hF⟩ := exec_forceNewSession hexact hrun.force
    refine ⟨ms, hle, hge, ?_, ?_⟩
    · rintro ⟨e, rfl⟩
      refine iff_of_true ⟨fun _ _ _ _ he => ?_, fun _ _ _ _ _ he => ?_, hexact⟩
        (ageExact_iff.mp hexact)
      · cases he
      · cases he
    · intro hhtml
      exact proper_iff hauth hexact ((authorizePage_cases hF hrun.page).resolve_left hhtml)
  · -- with an overflow, neither side holds
    refine ⟨w₂.clock, exec_clock hrun.force, Int.le_refl _, fun _ => ?_, fun _ => ?_⟩
    · exact iff_of_false (fun hp => hexact hp.exact) fun hr => hexact (ageExact_iff.mpr hr)
    · exact iff_of_false (fun hp => hexact hp.exact) fun hr => hexact (ageExact_iff.mpr hr.inRange)

end Answers

/-! ### A cookie of another login -/

/-- alice is logged in since two hours, with a session of four hours. -/
def pageSession : Session :=
  { (default : Session) with id := "session", csrfToken := "csrf", userId := some "alice",
                             state := .auth, exp := 107200 }

def pagePrincipal : Principal := { session := some pageSession, roles := [] }

/-- The cookie of bob, who has passkeys, can be read until later. -/
def pageState : AppState :=
  { sampleState with
    decodeMfaCookie := fun c => if c = "bob" then .ok ⟨"bob@localhost", 200000000⟩
      else .error ⟨.badRequest, "Webauthn Cookie is malformed"⟩ }

def pageWorld : World where
  clock := 100000000
  issued := []
  db
    | .clients => [{ sampleClient with id := "app", redirectUris := "https://app/*" }]
    | .users => [sampleUser, { sampleUser with
        id := "bob", email := "bob@localhost", webauthnUserId := some "uuid" }]
    | _ => []
  cache _ _ := none

def pageRequest (prompt : Option String) (maxAge : Option Int) : AuthRequest :=
  { clientId := "app", redirectUri := "https://app/callback", codeChallenge := some "challenge",
    codeChallengeMethod := some "S256", maxAge, prompt }

/-- The answer, in the runs that these choices decide. -/
def isRefresh : Except (Fault ErrorResponse) AuthorizeAnswer → Bool
  | .ok (.authorizeHtml _ .refresh _ _) => true
  | _ => false

def isLoginPage : Except (Fault ErrorResponse) AuthorizeAnswer → Bool
  | .ok (.authorizeHtml _ .none _ _) => true
  | _ => false

theorem of_isRefresh (h : isRefresh r = true) :
    ∃ csrf s o, r = .ok (.authorizeHtml csrf .refresh s o) := by
  unfold isRefresh at h
  split at h
  · exact ⟨_, _, _, rfl⟩
  · cases h

theorem of_isLoginPage (h : isLoginPage r = true) :
    ∃ csrf s o, r = .ok (.authorizeHtml csrf .none s o) := by
  unfold isLoginPage at h
  split at h
  · exact ⟨_, _, _, rfl⟩
  · cases h

/-- The choices of a run that refreshes the session. -/
def refreshChoices : List Choice :=
  [.ok, .ok, .ok, .time 100000000, .ok, .ok, .ok, .ok, .ok]

theorem authorize_page_alice : ∃ csrf s o w',
    Exec sem (getAuthorize pageState default (pageRequest none (some 7300)) pagePrincipal) pageWorld
      (.ok (.authorizeHtml csrf .refresh s o)) w' ∧
    ∃ o' forced mfaLogin w₁ w₂ w₃ ms, PageRun pageState default (pageRequest none (some 7300))
        pagePrincipal o' forced mfaLogin w₁ w₂ w₃ (.authorizeHtml csrf .refresh s o) w' ∧
      w₁.clock ≤ ms ∧ ms ≤ w₂.clock ∧
      (Proper pageState (pageRequest none (some 7300)) pagePrincipal 95000 (ms / 1000)
          (.authorizeHtml csrf .refresh s o) ↔
        AsAsked pageState (pageRequest none (some 7300)) pagePrincipal 95000 (ms / 1000)
          mfaLogin) := by
  obtain ⟨r, w', hx, hr⟩ := Pool.exists_exec_of_choices Op.run
    (getAuthorize pageState default (pageRequest none (some 7300)) pagePrincipal) refreshChoices
    pageWorld (fun r _ => isRefresh r) (by decide +kernel)
  obtain ⟨csrf, s, o, rfl⟩ := of_isRefresh hr
  refine ⟨csrf, s, o, w', hx, ?_⟩
  have hauth : ∀ s, pagePrincipal.session = some s → s.exp - pageState.sessionLifetime ≤ 95000 := by
    intro s hs
    cases hs
    decide
  obtain ⟨hruns, hpages⟩ := @authorize_page pageState default (pageRequest none (some 7300))
    pagePrincipal pageWorld w' (.authorizeHtml csrf .refresh s o) 95000 hauth
  rcases hruns.mp hx with ⟨e, -, ha⟩ | ⟨-, o', w₁, -, forced, mfaLogin, w₂, w₃, hrun⟩
  · cases ha
  · obtain ⟨ms, hle, hge, -, hpage⟩ := hpages o' forced mfaLogin w₁ w₂ w₃ hrun
    refine ⟨o', forced, mfaLogin, w₁, w₂, w₃, ms, hrun, hle, hge, hpage ?_⟩
    rintro ⟨e, he⟩
    cases he

/-- A request is answered with a page that is not what it has asked for. -/
def Improper (req : HttpRequest) (q : AuthRequest) : Prop :=
  ∃ a w', Exec sem (getAuthorize pageState req q pagePrincipal) pageWorld (.ok a) w' ∧
    ∀ authAt now, ¬ Proper pageState q pagePrincipal authAt now a

/-- With bob's cookie, alice need not log in again; a request without interaction is shown a login
page as soon as the session is too old; and the age of a session overflows. -/
theorem prompt_ignored :
    Improper { (default : HttpRequest) with mfaCookie := some "bob" }
      (pageRequest (some "login") none) ∧
    Improper default (pageRequest (some "none") (some 60)) ∧
    Improper default (pageRequest none (some (2 ^ 63 - 1))) := by
  refine ⟨?_, ?_, ?_⟩
  · obtain ⟨r, w', hx, hr⟩ := Pool.exists_exec_of_choices Op.run
      (getAuthorize pageState { (default : HttpRequest) with mfaCookie := some "bob" }
        (pageRequest (some "login") none) pagePrincipal)
      (refreshChoices ++ [.ok, .ok, .ok]) pageWorld (fun r _ => isRefresh r) (by decide +kernel)
    obtain ⟨csrf, s, o, rfl⟩ := of_isRefresh hr
    exact ⟨_, w', hx, fun _ _ h => h.refresh (.inl rfl) csrf s o rfl⟩
  · obtain ⟨r, w', hx, hr⟩ := Pool.exists_exec_of_choices Op.run
      (getAuthorize pageState default (pageRequest (some "none") (some 60)) pagePrincipal)
      (refreshChoices ++ [.rand (String.ofList (List.replicate 32 'a')),
        .rand (String.ofList (List.replicate 32 'b')), .time 100000000, .ok, .ok])
      pageWorld (fun r _ => isLoginPage r) (by decide +kernel)
    obtain ⟨csrf, s, o, rfl⟩ := of_isLoginPage hr
    exact ⟨_, w', hx, fun _ _ h => by cases h.silent rfl _ _ _ _ rfl⟩
  · obtain ⟨r, w', hx, hr⟩ := Pool.exists_exec_of_choices Op.run
      (getAuthorize pageState default (pageRequest none (some (2 ^ 63 - 1))) pagePrincipal)
      (refreshChoices ++ [.rand (String.ofList (List.replicate 32 'a')),
        .rand (String.ofList (List.replicate 32 'b')), .time 100000000, .ok, .ok])
      pageWorld (fun r _ => isLoginPage r) (by decide +kernel)
    obtain ⟨csrf, s, o, rfl⟩ := of_isLoginPage hr
    refine ⟨_, w', hx, fun _ _ h => ?_⟩
    obtain ⟨-, hsum⟩ := h.exact (by simp [pageRequest]) _ _ rfl rfl
    exact absurd hsum (by decide)

end Rauthy
