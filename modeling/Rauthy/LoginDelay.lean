/-
Rauthy/LoginDelay.lean

`handle_login_delay` of `rauthy-service/src/auth.rs`, between the logins and the handler of
failed logins: a request that succeeds resets the counter of its IP, a failed one is counted
if its error says so, and from certain counts on the IP is blocked.

A failed login also sends an event, which comes back to the handler some time later and raises the
counter to the number that it carries, if the counter is lower by then.

`alike_iff` compares a login with a wrong password for an account with the same login without
the account.  `logins_counted` says what the counter of an IP amounts to along a sequence of
logins and of events that come back.
-/
import Rauthy.Auth
import Rauthy.IpBlacklist

namespace Rauthy

open Prog

variable {α : Type}

/-! ### The delay -/

/-- What the answers are made of that comes from templates and from encryption. -/
structure LoginPages where
  /-- `TooManyRequestsHtml::build` -/
  tooManyRequestsHtml : String → Int → String
  /-- the value of the MFA cookie for an e-mail -/
  buildMfaCookie : String → Except ErrorResponse String

/-- The result of a login: with success, whether a password has been hashed; with an error,
whether to add a login delay. -/
abbrev LoginRes (α : Type) := Except (ErrorResponse × Bool) (α × Bool)

/-- What `handle_login_delay` sends to the handler of failed logins. -/
def delayMessage (peerIp : Option String) : LoginRes α → Option IpBlacklistReq
  | .ok _ => peerIp.map .loginFailedDelete
  | .error (_, true) => peerIp.map fun ip => .loginCheck ip true
  | .error (_, false) => none

/-- The failed logins that the handler answers with. -/
def failedLoginsOf : IpBlacklistReply → ℕ
  | .counter (some counter) => counter
  | _ => 1

/-- For how many seconds an IP is blocked after so many failed logins. -/
def blockSecs (failedLogins : ℕ) : Option Int :=
  if failedLogins ≥ 25 then some 86400
  else if failedLogins = 20 then some 3600
  else if failedLogins = 15 then some 900
  else if failedLogins = 10 then some 600
  else if failedLogins = 7 then some 60
  else none

/-- How many milliseconds a failed login sleeps otherwise. -/
def sleepTime (failedLogins sleepTimeMedian : ℕ) : ℕ :=
  if failedLogins > 20 then sleepTimeMedian + failedLogins * 20000
  else if failedLogins > 15 then sleepTimeMedian + failedLogins * 15000
  else if failedLogins > 10 then sleepTimeMedian + failedLogins * 10000
  else if failedLogins > 7 then sleepTimeMedian + failedLogins * 5000
  else if failedLogins ≥ 5 then sleepTimeMedian + failedLogins * 3000
  else if failedLogins ≥ 3 then sleepTimeMedian + failedLogins * 2000
  else sleepTimeMedian

/-- The events about a failed login. -/
inductive DelayEvent where
  | invalidLogin (failedLogins : ℕ) (ip : String)
  | ipBlacklisted (exp : Int) (ip : String)
  deriving DecidableEq

/-- What `EventListener::router` tells the handler when the event has come back. -/
def DelayEvent.echo : DelayEvent → IpBlacklistReq
  | invalidLogin failedLogins ip => .loginFailedSet ip failedLogins
  | ipBlacklisted exp ip => .blacklist ip exp

/-- What comes out of `handle_login_delay`: the answer, the handler, the sleep, and the events that
were sent. -/
structure Delayed (α : Type) where
  res : Except ErrorResponse α
  handler : IpHandler
  sleep : ℕ
  events : List DelayEvent

/-- The handler has worked through a message, if there is one. -/
def IpHandler.tell (h : IpHandler) (now : Int) : Option IpBlacklistReq → IpHandler × IpBlacklistReply
  | none => (h, .none)
  | some msg => h.recv now msg

/-- A failed login, at the time `now` in seconds. -/
def delayFailed (pages : LoginPages) (h : IpHandler) (now : Int) (peerIp : Option String)
    (sleepTimeMedian : ℕ) : ErrorResponse × Bool → Delayed α
  | (e, false) => ⟨.error e, h, 0, []⟩
  | (e, true) =>
      let (h, reply) := h.tell now (delayMessage peerIp (.error (e, true) : LoginRes α))
      let failedLogins := failedLoginsOf reply
      let ip := peerIp.getD "UNKNOWN"
      let invalidLogin := .invalidLogin failedLogins ip
      match blockSecs failedLogins with
      | some secs =>
          ⟨.error ⟨.tooManyRequests (now + secs), pages.tooManyRequestsHtml ip (now + secs)⟩, h, 0,
            [invalidLogin, .ipBlacklisted (now + secs) ip]⟩
      | none => ⟨.error e, h, sleepTime failedLogins sleepTimeMedian, [invalidLogin]⟩

/-- `handle_login_delay`: the times are in milliseconds, `start` is when the request came in. -/
def handleLoginDelay (pages : LoginPages) (h : IpHandler) (peerIp : Option String) (start : Int)
    (res : LoginRes α) : M ErrorResponse (Delayed α) := do
  let successTime ← cacheGet .loginDelay "login_success_time" CacheVal.count?
  let successTime := successTime.getD 2000
  let end' ← now
  match res with
  | .ok (resp, hasPasswordBeenHashed) =>
      let (h, _) := h.tell (end' / 1000) (delayMessage peerIp (.ok (resp, hasPasswordBeenHashed)))
      runIf (hasPasswordBeenHashed = true)
        (cachePut .loginDelay "login_success_time" (.count ((successTime + (end' - start)) / 2)))
      return ⟨.ok resp, h, 0, []⟩
  | .error e =>
      -- the time of the error page, which is only read if there is one
      let now ← unixTimestamp
      return delayFailed pages h now peerIp (successTime.toNat - (end' - start).toNat) e

/-! ### The logins that are delayed -/

inductive LoginReq where
  | authorize (req : HttpRequest) (reqData : LoginRequest) (session : Session)
  | token (req : HttpRequest) (reqData : TokenRequest)

/-- The answers of both endpoints. -/
inductive LoginAnswer where
  | authStep (step : AuthStep) (mfaCookie : Option String)
  | tokens (ts : TokenSet) (headers : Headers)
  deriving DecidableEq

/-- The MFA cookie of `map_auth_step`, if there is none for this e-mail yet. -/
def addMfaCookie (data : AppState) (pages : LoginPages) (req : HttpRequest) (email : String) :
    M (ErrorResponse × Bool) (Option String) := do
  let build := mapErr (·, true) (answer (pages.buildMfaCookie email))
  match ← attempt (WebauthnCookie.parseValidate data req.mfaCookie) with
  | .ok c =>
      if c.email ≠ email then do
        let cookie ← build
        return some cookie
      else return none
  | .error _ => do
      let cookie ← build
      return some cookie

/-- `map_auth_step` -/
def mapAuthStep (data : AppState) (pages : LoginPages) (req : HttpRequest) :
    AuthStep → M (ErrorResponse × Bool) (LoginAnswer × Bool)
  | .loggedIn res => return (.authStep (.loggedIn res) none, res.hasPasswordBeenHashed)
  | .awaitWebauthn res => do
      let cookie ← addMfaCookie data pages req res.email
      return (.authStep (.awaitWebauthn res) cookie, res.hasPasswordBeenHashed)
  | .providerLink => return (.authStep .providerLink none, false)

namespace LoginReq

/-- `real_ip_from_req` -/
def peerIp : LoginReq → Option String
  | authorize req _ _ => req.realIp
  | token req _ => req.realIp

/-- What the endpoint computes before the delay. -/
def prog (data : AppState) (pages : LoginPages) :
    LoginReq → M (ErrorResponse × Bool) (LoginAnswer × Bool)
  | authorize req reqData session => do
      let step ← Rauthy.authorize data req reqData session
      mapAuthStep data pages req step
  | token req reqData => do
      let addLoginDelay : Bool := reqData.grantType = "password"
      let (ts, headers) ← mapErr (·, addLoginDelay) (getTokenSet data req reqData)
      return (.tokens ts headers, addLoginDelay)

/-- The whole request, the handler of failed logins being in the state `h`. -/
def handle (data : AppState) (pages : LoginPages) (h : IpHandler) (q : LoginReq) :
    M ErrorResponse (Delayed LoginAnswer) := do
  let start ← now
  let res ← attempt (q.prog data pages)
  handleLoginDelay pages h q.peerIp start res

end LoginReq

/-! ### Logins for accounts that do and do not exist -/

/-- The e-mail belongs to nobody. -/
structure NoAccount (data : AppState) (email : String) (w : World) : Prop where
  row : ∀ u ∈ w.db .users, u.email ≠ data.toLowercase email
  copy : w.cache .users (User.cacheIdx (data.toLowercase email)) = none

/-- The e-mail belongs to `u`: this is the row, and this is what is cached, if anything is. -/
structure HasAccount (data : AppState) (email : String) (u : User) (w : World) : Prop where
  row : ((w.db .users).filter fun r => r.email == data.toLowercase email).head? = some u
  copy : ∀ v, w.cache .users (User.cacheIdx (data.toLowercase email)) = some v → v = .user u

/-- The password does not match the hash, if there is one. -/
def User.WrongPassword (data : AppState) (u : User) (plain : String) : Prop :=
  ∀ hash, u.password = some hash → data.comparePasswords plain hash = .ok false

/-- "Invalid user credentials" -/
def invalidCredentials : ErrorResponse := ⟨.unauthorized, "Invalid user credentials"⟩

section Lookup

variable {data : AppState} {email : String} {u : User} {w w' : World}
  {cs : List (CacheName × Slot)}

theorem NoAccount.frame {ts : List Table} (h : NoAccount data email w) (hf : Frame ts cs w w')
    (ht : Table.users ∉ ts) (hc : ∀ s, (.users, s) ∉ cs) :
    NoAccount data email w' where
  row := by
    rw [hf.db _ ht]
    exact h.row
  copy := by
    refine Option.eq_none_iff_forall_ne_some.mpr fun v hv => ?_
    rcases hf.cache _ _ v hv with hv | hv
    · rw [h.copy] at hv
      cases hv
    · exact hc _ hv

theorem HasAccount.frame {ts : List Table} (h : HasAccount data email u w) (hf : Frame ts cs w w')
    (ht : Table.users ∉ ts) (hc : ∀ s, (.users, s) ∉ cs) : HasAccount data email u w' where
  row := by
    rw [hf.db _ ht]
    exact h.row
  copy v hv := by
    rcases hf.cache _ _ v hv with hv | hv
    · exact h.copy v hv
    · exact absurd hv (hc _)

theorem NoAccount.find (h : NoAccount data email w) :
    Outcomes semUp (User.findByEmail data email) w fun r _ =>
      r = .error (err .notFound "not found") := by
  refine answered_cached (fun v hv => ?_) fun w₁ hw₁ => answered_fetchOne (fun r hr => ?_) fun _ => rfl
  · rw [h.copy] at hv
    cases hv
  · have hdb : w₁.db = w.db := by rcases hw₁ with rfl | rfl <;> rfl
    rw [hdb] at hr
    obtain ⟨hmem, he⟩ := List.mem_filter.mp (List.mem_of_head? hr)
    exact absurd (eq_of_beq he) (h.row r hmem)

theorem HasAccount.find (h : HasAccount data email u w) :
    Outcomes semUp (User.findByEmail data email) w fun r w' => r = .ok u ∧ w'.clock = w.clock := by
  refine answered_cached (fun v hv => ⟨u, ?_, rfl, rfl⟩) fun w₁ hw₁ => ?_
  · rw [h.copy v hv]
    rfl
  · have hdb : w₁.db = w.db ∧ w₁.clock = w.clock := by rcases hw₁ with rfl | rfl <;> exact ⟨rfl, rfl⟩
    refine answered_fetchOne (fun r hr => ?_) fun hn => ?_
    · rw [hdb.1, h.row] at hr
      cases hr
      exact ⟨rfl, hdb.2⟩
    · rw [hdb.1, h.row] at hn
      cases hn

end Lookup

/-! What an account answers to a wrong password -/

section Reject

variable {data : AppState} {u : User} {plain : String} {w : World}

theorem answered_checkEnabled (h : u.enabled = true) :
    Outcomes semUp u.checkEnabled w fun r w' => r = .ok () ∧ w' = w :=
  outcomes_throwIf (fun _ => ⟨rfl, rfl⟩) fun hn => by rw [h] at hn; cases hn

/-- The account has expired in the second `t`. -/
def User.ExpiredAt (u : User) (t : Int) : Prop := ∃ ts, u.userExpires = some ts ∧ ts < t

theorem answered_checkExpired :
    Outcomes semUp u.checkExpired w fun r w' => w.clock ≤ w'.clock ∧
      ∃ t, w.clock / 1000 ≤ t ∧ t ≤ w'.clock / 1000 ∧
        (¬ u.ExpiredAt t ∧ r = .ok () ∨
          u.ExpiredAt t ∧ r = .error (err .disabled "User has expired")) := by
  unfold User.checkExpired
  split
  · next hn =>
      refine outcomes_ret ⟨Int.le_refl _, _, Int.le_refl _, Int.le_refl _, .inl ⟨?_, rfl⟩⟩
      rintro ⟨ts, hts, -⟩
      rw [hn] at hts
      cases hts
  · next ts hts =>
      refine outcomes_bind (answered_unixTimestamp fun ms hms => ?_)
      refine outcomes_throwIf (fun hlt => ?_) fun hlt => ?_
      · refine ⟨hms, ms / 1000, by omega, Int.le_refl _, .inl ⟨?_, rfl⟩⟩
        rintro ⟨ts', hts', hlt'⟩
        rw [hts] at hts'
        cases hts'
        omega
      · exact ⟨hms, ms / 1000, by omega, Int.le_refl _, .inr ⟨⟨ts, hts, by omega⟩, rfl⟩⟩

theorem answered_comparePassword {hash : String} (hp : u.password = some hash)
    (h : u.WrongPassword data plain) :
    Outcomes semUp (u.comparePassword data plain) w fun r w' =>
      r = .error (.err invalidCredentials) ∧ w.clock ≤ w'.clock := by
  unfold User.comparePassword User.matchPasswords
  rw [hp]
  refine outcomes_bind (outcomes_answer (fun a ha => ?_) fun e he => ?_)
  · rw [h hash hp] at ha
    cases ha
    exact outcomes_throwIf (fun hn => absurd rfl hn) fun _ => ⟨rfl, Int.le_refl _⟩
  · rw [h hash hp] at he
    cases he

/-- The error of `validate_password`. -/
def User.passwordError (u : User) : ErrorResponse :=
  if u.password.isSome then invalidCredentials else ⟨.passwordExpired, "No password set"⟩

theorem answered_validatePassword (henabled : u.enabled = true) (h : u.WrongPassword data plain) :
    Outcomes semUp (u.validatePassword data plain) w fun r w' =>
      r = .error (.err u.passwordError) ∧ w.clock ≤ w'.clock := by
  rcases hp : u.password with - | hash
  · refine outcomes_bind (outcomes_throwIf (fun hn => ?_) fun _ => ?_)
    · rw [hp] at hn
      exact absurd rfl hn
    · simp only [User.passwordError, hp]
      exact ⟨rfl, Int.le_refl _⟩
  · have herr : u.passwordError = invalidCredentials := by simp [User.passwordError, hp]
    rw [herr]
    refine outcomes_bind (outcomes_throwIf (fun _ => ?_) fun hn => ?_)
    · dsimp only
      split
      · exact answered_comparePassword hp h
      · refine outcomes_bind (answered_unixTimestamp fun ms hms => ?_)
        have hcmp := answered_comparePassword (w := { w with clock := ms }) hp h
        dsimp only
        split
        · refine outcomes_bind (outcomes_throwIf (fun _ => ?_) fun hn => ?_)
          · refine outcomes_bind (outcomes_mono hcmp fun r w' hr => ?_)
            obtain ⟨rfl, hle⟩ := hr
            exact ⟨rfl, Int.le_trans hms hle⟩
          · rw [henabled] at hn
            cases hn
        · exact outcomes_mono hcmp fun r w' hr => ⟨hr.1, Int.le_trans hms hr.2⟩
    · rw [hp] at hn
      cases hn

theorem answered_saveUser (henabled : u.enabled = true) :
    Outcomes semUp (u.save data none) w fun r w' => r = .ok () ∧ w'.clock = w.clock := by
  refine outcomes_bind (outcomes_ret (outcomes_bind (answered_execute fun db _ => ?_)))
  have hskip : runIf (u.enabled = false) (do
      Session.invalidateForUser u.id
      RefreshToken.invalidateForUser u.id) = (.ret () : M ErrorResponse Unit) := by
    rw [runIf, if_neg (by simp [henabled])]
  dsimp only
  unfold User.saveCached
  rw [hskip]
  refine outcomes_bind (outcomes_ret (outcomes_bind (outcomes_ret ?_)))
  exact outcomes_bind (answered_cachePut (answered_cachePut ⟨rfl, rfl⟩))

end Reject

/-! The two runs -/

namespace LoginReq

/-- The e-mail and the password, if both are given. -/
def credentials : LoginReq → Option (String × String)
  | authorize _ reqData _ => reqData.password.map (reqData.email, ·)
  | token _ reqData =>
      if reqData.grantType = "password" then
        match reqData.username, reqData.password with
        | some email, some password => some (email, password)
        | _, _ => none
      else none

def IsToken : LoginReq → Prop
  | authorize _ _ _ => False
  | token _ _ => True

/-- The checks of the client, which come before the lookup of the user in the password grant. -/
def ClientOk (data : AppState) (w : World) : LoginReq → Prop
  | authorize _ _ _ => True
  | token req reqData => ∃ clientId secret,
      reqData.tryGetClientIdSecret data req = .ok (clientId, secret) ∧
      ∀ r w', Exec semUp (passwordClient data req clientId secret) w r w' → ∃ c, r = .ok c

end LoginReq

/-- The same answer, and the same effect on the counters, also by the events that come back. -/
def Delayed.Same (x y : Delayed LoginAnswer) : Prop :=
  x.res = y.res ∧ x.handler = y.handler ∧ x.events = y.events

/-- Two failed logins that cannot be told apart: the error, the flag, and what comes out of the
delay, with the counter of the IP. -/
structure Alike (peerIp : Option String) (a b : ErrorResponse × Bool) : Prop where
  error : a.1 = b.1
  flag : a.2 = b.2
  delayed : ∀ pages h now median, Delayed.Same (delayFailed pages h now peerIp median a)
    (delayFailed pages h now peerIp median b)

theorem alike_iff_eq {peerIp : Option String} {a b : ErrorResponse × Bool} :
    Alike peerIp a b ↔ a = b := by
  constructor
  · exact fun h => Prod.ext h.error h.flag
  · rintro rfl
    exact ⟨rfl, rfl, fun _ _ _ _ => ⟨rfl, rfl, rfl⟩⟩

section TwoRuns

variable {data : AppState} {pages : LoginPages} {req : HttpRequest} {w : World}
  {u : User} {plain email : String} {reqData : TokenRequest}
  {fingerprint : Option String}

theorem passwordClient_touches (data : AppState) (req : HttpRequest) (clientId : String)
    (secret : Option String) :
    Touches [] [(.c12hr, .client), (.dpopNonces, .dpopNonce)]
      (passwordClient data req clientId secret) := by
  refine touches_bind ((Client.find_touches _).mono (by simp) (by simp)) fun client => ?_
  refine touches_bind (touches_answer _) fun headerOrigin => ?_
  refine touches_bind ((checkSecret_touches _ _ _ _).mono (by simp) (by simp)) fun _ => ?_
  refine touches_bind (touches_answer _) fun _ => ?_
  refine touches_bind ((dpopFingerprint_touches _ _ _).mono (by simp) (by simp)) fun _ => ?_
  exact touches_ret _

theorem authorize_unknown {reqData : LoginRequest} {session : Session}
    (h : NoAccount data reqData.email w) :
    Outcomes semUp ((LoginReq.authorize req reqData session).prog data pages) w fun r _ =>
      r = .error (.err (invalidCredentials, false)) := by
  refine outcomes_bind (outcomes_bind (outcomes_bind (outcomes_mapErr (outcomes_mono h.find
    fun r w₁ hr => ?_))))
  subst hr
  exact rfl

theorem answered_mfaCookieOf {ε : Type} :
    Outcomes semUp (mfaCookieOf data req u : M ε _) w fun r _ => ∃ c, r = .ok c := by
  refine outcomes_bind (outcomes_tried ?_)
  unfold WebauthnCookie.parseValidate
  split
  · exact outcomes_fail (outcomes_ret ⟨_, rfl⟩)
  · refine outcomes_bind (outcomes_answer (fun c _ => ?_) fun e _ => outcomes_ret ⟨_, rfl⟩)
    refine outcomes_bind (outcomes_call fun ms w₁ _ => outcomes_ret ?_)
    refine outcomes_bind (outcomes_throwIf (fun _ => ?_) fun _ => outcomes_ret ⟨_, rfl⟩)
    exact outcomes_ret (outcomes_ret ⟨_, rfl⟩)

/-- With a password and an account, all errors before the password add the delay. -/
theorem authorizeUser_known {reqData : LoginRequest} (hpwd : reqData.password = some plain)
    (h : HasAccount data reqData.email u w) :
    Outcomes semUp (authorizeUser data req reqData) w fun r _ =>
      r = .ok u ∨ ∃ e, r = .error (.err (e, true)) := by
  refine outcomes_bind (outcomes_mapErr (outcomes_mono h.find fun r w₁ hr => ?_))
  obtain ⟨rfl, -⟩ := hr
  refine outcomes_bind (outcomes_mono answered_mfaCookieOf fun r w₂ hr => ?_)
  obtain ⟨c, rfl⟩ := hr
  refine outcomes_bind (outcomes_throwIf (fun _ => ?_) fun hmust => ?_)
  · refine outcomes_bind (outcomes_throwIf (fun _ => ?_) fun _ => .inr ⟨_, rfl⟩)
    refine outcomes_bind (outcomes_mapErr (outcomes_throwIf (fun _ => ?_) fun _ => .inr ⟨_, rfl⟩))
    refine outcomes_bind (outcomes_mapErr (outcomes_mono answered_checkExpired fun r w₃ hr => ?_))
    obtain ⟨-, t, -, -, ⟨-, rfl⟩ | ⟨-, rfl⟩⟩ := hr
    · exact outcomes_ret (.inl rfl)
    · exact .inr ⟨_, rfl⟩
  · rw [hpwd] at hmust
    cases hmust

theorem authorize_known {reqData : LoginRequest} {session : Session}
    (hpwd : reqData.password = some plain) (henabled : u.enabled = true)
    (hwrong : u.WrongPassword data plain) (h : HasAccount data reqData.email u w) :
    Outcomes semUp ((LoginReq.authorize req reqData session).prog data pages) w fun r _ =>
      ∃ e, r = .error (.err (e, true)) := by
  refine outcomes_bind (outcomes_bind (outcomes_mono (authorizeUser_known hpwd h) fun r w₁ hr => ?_))
  rcases hr with rfl | ⟨e, rfl⟩
  · refine outcomes_bind (outcomes_mapErr ?_)
    rw [hpwd]
    refine outcomes_bind (outcomes_mono (answered_validatePassword henabled hwrong)
      fun r w₂ hr => ?_)
    obtain ⟨rfl, -⟩ := hr
    exact ⟨_, rfl⟩
  · exact ⟨e, rfl⟩

/-- `grant_type_password` after the checks of the client. -/
def passwordUser (data : AppState) (email password : String) (client : Client)
    (fingerprint : Option String) (headers : Headers) : M ErrorResponse (TokenSet × Headers) := do
  let user ← mapErr (fun _ => invalidCredentials) (User.findByEmail data email)
  user.checkEnabled
  user.checkExpired
  match ← attempt (user.validatePassword data password) with
  | .ok _ => passwordTokens data user password client fingerprint headers
  | .error e =>
      passwordFailed data user
      fail (.err e)

theorem LoginReq.of_token_credentials
    (h : (LoginReq.token req reqData).credentials = some (email, plain)) :
    reqData.grantType = "password" ∧ reqData.username = some email ∧
      reqData.password = some plain := by
  simp only [credentials] at h
  split at h
  · next hg =>
      split at h
      · next e p he hp =>
          cases h
          exact ⟨hg, he, hp⟩
      · cases h
  · cases h

/-- The run of a password grant whose client passes its checks. -/
theorem outcomes_passwordGrant
    {Q : Except (Fault (ErrorResponse × Bool)) (LoginAnswer × Bool) → World → Prop}
    (hcred : (LoginReq.token req reqData).credentials = some (email, plain))
    (hc : (LoginReq.token req reqData).ClientOk data w) (hrest : ∀ client fingerprint headers w₁,
      Frame [] [(.c12hr, .client), (.dpopNonces, .dpopNonce)] w w₁ →
      Outcomes semUp (passwordUser data email plain client fingerprint headers) w₁ fun r w' =>
        match r with
        | .ok (ts, headers) => Q (.ok (.tokens ts headers, true)) w'
        | .error e => Q (.error (Fault.map (·, true) e)) w') :
    Outcomes semUp ((LoginReq.token req reqData).prog data pages) w Q := by
  obtain ⟨hgrant, huser, hpwd⟩ := LoginReq.of_token_credentials hcred
  obtain ⟨clientId, secret, hid, hclient⟩ := hc
  have hflag : decide (reqData.grantType = "password") = true := decide_eq_true hgrant
  have hset : getTokenSet data req reqData = grantTypePassword data req reqData := by
    rw [getTokenSet, if_neg (by rw [hgrant]; decide), if_neg (by rw [hgrant]; decide), if_pos hgrant]
  unfold LoginReq.prog
  simp only [hflag, hset]
  refine outcomes_bind (outcomes_mapErr ?_)
  unfold grantTypePassword
  rw [huser, hpwd, hid]
  refine outcomes_bind (outcomes_ret (outcomes_bind (outcomes_ret (outcomes_bind (outcomes_ret ?_)))))
  refine outcomes_bind fun r w₁ hx => ?_
  obtain ⟨⟨client, fingerprint, headers⟩, rfl⟩ := hclient r w₁ hx
  have hf := (passwordClient_touches data req clientId secret).frame hx.of_answering
  refine outcomes_mono (hrest client fingerprint headers w₁ hf) fun r w' hr => ?_
  rcases r with e | ⟨ts, headers⟩
  · exact hr
  · exact outcomes_ret hr

theorem passwordUser_unknown {client : Client} {headers : Headers} (h : NoAccount data email w) :
    Outcomes semUp (passwordUser data email plain client fingerprint headers) w fun r _ =>
      r = .error (.err invalidCredentials) := by
  refine outcomes_bind (outcomes_mapErr (outcomes_mono h.find fun r w₁ hr => ?_))
  subst hr
  exact rfl

theorem passwordUser_known {client : Client} {headers : Headers} (henabled : u.enabled = true)
    (hwrong : u.WrongPassword data plain) (h : HasAccount data email u w) :
    Outcomes semUp (passwordUser data email plain client fingerprint headers) w fun r w' =>
      ∃ t, w.clock / 1000 ≤ t ∧ t ≤ w'.clock / 1000 ∧
        (u.ExpiredAt t ∧ r = .error (err .disabled "User has expired") ∨
          ¬ u.ExpiredAt t ∧ r = .error (.err u.passwordError)) := by
  refine outcomes_bind (outcomes_mapErr (outcomes_mono h.find fun r w₁ hr => ?_))
  obtain ⟨rfl, hclock⟩ := hr
  refine outcomes_bind (outcomes_mono (answered_checkEnabled henabled) fun r w₂ hr => ?_)
  obtain ⟨rfl, rfl⟩ := hr
  refine outcomes_bind (outcomes_mono answered_checkExpired fun r w₃ hr => ?_)
  obtain ⟨hle, t, ht, ht', ⟨hexp, rfl⟩ | ⟨hexp, rfl⟩⟩ := hr
  · refine outcomes_bind (outcomes_tried (outcomes_mono
      (answered_validatePassword henabled hwrong) fun r w₄ hr => ?_))
    obtain ⟨rfl, hle₄⟩ := hr
    refine outcomes_bind (outcomes_bind (answered_unixTimestamp fun ms hms => ?_))
    refine outcomes_mono (answered_saveUser henabled) fun r w₅ hr => ?_
    obtain ⟨rfl, hclock₅⟩ := hr
    refine outcomes_fail ⟨t, by omega, ?_, .inr ⟨hexp, rfl⟩⟩
    rw [hclock₅]
    show t ≤ ms / 1000
    omega
  · exact ⟨t, by omega, ht', .inl ⟨hexp, rfl⟩⟩

theorem grant_unknown (hcred : (LoginReq.token req reqData).credentials = some (email, plain))
    (hc : (LoginReq.token req reqData).ClientOk data w) (h : NoAccount data email w) :
    Outcomes semUp ((LoginReq.token req reqData).prog data pages) w fun r _ =>
      r = .error (.err (invalidCredentials, true)) := by
  refine outcomes_passwordGrant hcred hc fun client fp headers w₁ hf => ?_
  refine outcomes_mono (passwordUser_unknown (h.frame hf (by simp) (by simp))) fun r w' hr => ?_
  subst hr
  exact rfl

theorem grant_known (hcred : (LoginReq.token req reqData).credentials = some (email, plain))
    (hc : (LoginReq.token req reqData).ClientOk data w) (henabled : u.enabled = true)
    (hwrong : u.WrongPassword data plain) (h : HasAccount data email u w) :
    Outcomes semUp ((LoginReq.token req reqData).prog data pages) w fun r w' =>
      ∃ t, w.clock / 1000 ≤ t ∧ t ≤ w'.clock / 1000 ∧
        (u.ExpiredAt t ∧ r = .error (.err (⟨.disabled, "User has expired"⟩, true)) ∨
          ¬ u.ExpiredAt t ∧ r = .error (.err (u.passwordError, true))) := by
  refine outcomes_passwordGrant hcred hc fun client fp headers w₁ hf => ?_
  refine outcomes_mono (passwordUser_known henabled hwrong (h.frame hf (by simp) (by simp)))
    fun r w' hr => ?_
  have hclock := hf.clock
  obtain ⟨t, ht, ht', ⟨hexp, rfl⟩ | ⟨hexp, rfl⟩⟩ := hr
  · exact ⟨t, by omega, ht', .inl ⟨hexp, rfl⟩⟩
  · exact ⟨t, by omega, ht', .inr ⟨hexp, rfl⟩⟩

end TwoRuns

/-- **Logins with a wrong password**, for an account that exists and for none: they cannot be
told apart exactly if it is a password grant for an account that has a password and has not
expired. -/
theorem alike_iff {data : AppState} {pages : LoginPages} {q : LoginReq} {email plain : String}
    {u : User} {w₀ w₀' w₁ w₁' : World}
    {r₀ r₁ : Except (Fault (ErrorResponse × Bool)) (LoginAnswer × Bool)}
    (hcred : q.credentials = some (email, plain)) (henabled : u.enabled = true)
    (hwrong : u.WrongPassword data plain) (h₀ : NoAccount data email w₀)
    (h₁ : HasAccount data email u w₁) (hc₀ : q.ClientOk data w₀) (hc₁ : q.ClientOk data w₁)
    (hx₀ : Exec semUp (q.prog data pages) w₀ r₀ w₀')
    (hx₁ : Exec semUp (q.prog data pages) w₁ r₁ w₁') :
    ∃ e₀ e₁ t, r₀ = .error (.err e₀) ∧ r₁ = .error (.err e₁) ∧
      w₁.clock / 1000 ≤ t ∧ t ≤ w₁'.clock / 1000 ∧
      (Alike q.peerIp e₀ e₁ ↔ q.IsToken ∧ u.password.isSome = true ∧ ¬ u.ExpiredAt t) := by
  have hclock : w₁.clock ≤ w₁'.clock := exec_clock hx₁.of_answering
  cases q with
  | authorize req reqData session =>
      rcases hp : reqData.password with - | pwd
      · simp [LoginReq.credentials, hp] at hcred
      · simp only [LoginReq.credentials, hp, Option.map_some, Option.some.injEq, Prod.mk.injEq] at hcred
        obtain ⟨rfl, rfl⟩ := hcred
        obtain rfl := authorize_unknown h₀ r₀ w₀' hx₀
        obtain ⟨e, rfl⟩ := authorize_known hp henabled hwrong h₁ r₁ w₁' hx₁
        refine ⟨_, _, w₁.clock / 1000, rfl, rfl, Int.le_refl _, by omega, ?_⟩
        exact ⟨fun h => absurd h.flag Bool.false_ne_true, fun h => absurd h.1 id⟩
  | token req reqData =>
      obtain rfl := grant_unknown hcred hc₀ h₀ r₀ w₀' hx₀
      obtain ⟨t, ht, ht', ⟨hexp, rfl⟩ | ⟨hexp, rfl⟩⟩ :=
        grant_known hcred hc₁ henabled hwrong h₁ r₁ w₁' hx₁
      · refine ⟨_, _, t, rfl, rfl, ht, ht', ?_⟩
        rw [alike_iff_eq]
        exact ⟨fun h => absurd h (by simp [invalidCredentials]), fun h => absurd hexp h.2.2⟩
      · refine ⟨_, _, t, rfl, rfl, ht, ht', ?_⟩
        rw [alike_iff_eq]
        by_cases hp : u.password.isSome = true
        · simp [User.passwordError, hp, hexp, LoginReq.IsToken]
        · simp [User.passwordError, hp, invalidCredentials]

/-! A wrong password for alice -/

/-- The stores with these users and one client. -/
def loginWorld (users : List User) : World where
  clock := 100000
  issued := []
  db
    | .users => users
    | .clients => [sampleClient]
    | _ => []
  cache _ _ := none

def samplePages : LoginPages where
  tooManyRequestsHtml ip _ := ip
  buildMfaCookie := .ok

def loginReq : HttpRequest := { (default : HttpRequest) with realIp := some "10.0.0.1" }

/-- `POST /oidc/authorize` -/
def wrongLogin : LoginReq :=
  .authorize loginReq { (default : LoginRequest) with
    email := "alice@localhost", password := some "wrong", clientId := "app" } default

/-- `POST /oidc/token` -/
def wrongGrant : LoginReq :=
  .token loginReq { (default : TokenRequest) with
    grantType := "password", username := some "alice@localhost", password := some "wrong"
    clientId := some "app" }

theorem clientOk_wrongGrant (users : List User) :
    wrongGrant.ClientOk sampleState (loginWorld users) := by
  refine ⟨"app", none, rfl, ?_⟩
  have hfind : Outcomes semUp (Client.find "app") (loginWorld users) fun r _ =>
      r = .ok sampleClient := by
    refine outcomes_bind (answered_cacheGet (fun v hv => by cases hv) fun w₁ hw₁ => ?_)
    have hdb : w₁.db .clients = [sampleClient] := by rcases hw₁ with rfl | rfl <;> rfl
    refine outcomes_bind (answered_fetchOne (fun c hc => ?_) fun hn => ?_)
    · rw [hdb] at hc
      cases hc
      exact outcomes_bind (answered_cachePut (outcomes_ret rfl))
    · rw [hdb] at hn
      cases hn
  refine outcomes_bind (outcomes_mono hfind fun r w₁ hr => ?_)
  subst hr
  exact fun r w' hx => by
    obtain ⟨rfl, -⟩ := hx
    exact ⟨_, rfl⟩

theorem noAccount_loginWorld : NoAccount sampleState "alice@localhost" (loginWorld []) :=
  ⟨fun u hu => (by cases hu), rfl⟩

theorem hasAccount_loginWorld {u : User} (h : u.email = "alice@localhost") :
    HasAccount sampleState "alice@localhost" u (loginWorld [u]) := by
  refine ⟨?_, fun v hv => (by cases hv)⟩
  show ([u].filter fun r => r.email == "alice@localhost").head? = some u
  rw [List.filter_cons_of_pos (by simp [h])]
  rfl

theorem wrongPassword_sampleUser : sampleUser.WrongPassword sampleState "wrong" := by
  intro hash hp
  cases hp
  decide

/-- The password grant does not tell whether alice has an account. -/
theorem alike_iff_alice :
    ∃ r₀ r₁ w₀' w₁' e₀ e₁, Exec semUp (wrongGrant.prog sampleState samplePages) (loginWorld []) r₀ w₀' ∧
      Exec semUp (wrongGrant.prog sampleState samplePages) (loginWorld [sampleUser]) r₁ w₁' ∧
      r₀ = .error (.err e₀) ∧ r₁ = .error (.err e₁) ∧ Alike wrongGrant.peerIp e₀ e₁ := by
  obtain ⟨r₀, w₀', hx₀, -⟩ := exists_exec_semUp (wrongGrant.prog sampleState samplePages)
    [.ok, .ok, .ok, .ok, .ok] (loginWorld []) (fun _ _ => true) (by decide +kernel)
  obtain ⟨r₁, w₁', hx₁, -⟩ := exists_exec_semUp (wrongGrant.prog sampleState samplePages)
    [.ok, .ok, .ok, .ok, .ok, .ok, .time 100000, .ok, .ok, .ok] (loginWorld [sampleUser])
    (fun _ _ => true) (by decide +kernel)
  obtain ⟨e₀, e₁, t, hr₀, hr₁, -, -, h⟩ := alike_iff rfl rfl wrongPassword_sampleUser
    noAccount_loginWorld (hasAccount_loginWorld rfl) (clientOk_wrongGrant _) (clientOk_wrongGrant _)
    hx₀ hx₁
  refine ⟨r₀, r₁, w₀', w₁', e₀, e₁, hx₀, hx₁, hr₀, hr₁, h.mpr ⟨trivial, rfl, ?_⟩⟩
  rintro ⟨ts, hts, -⟩
  cases hts

/-- The flag of `POST /oidc/authorize` tells that alice has an account. -/
theorem account_told_apart :
    ¬ ∀ (data : AppState) (pages : LoginPages) (q : LoginReq) (email plain : String) (u : User)
        (w₀ w₀' w₁ w₁' : World)
        (r₀ r₁ : Except (Fault (ErrorResponse × Bool)) (LoginAnswer × Bool)),
      q.credentials = some (email, plain) → u.enabled = true → u.WrongPassword data plain →
      NoAccount data email w₀ → HasAccount data email u w₁ →
      Exec semUp (q.prog data pages) w₀ r₀ w₀' → Exec semUp (q.prog data pages) w₁ r₁ w₁' →
      ∃ e₀ e₁, r₀ = .error (.err e₀) ∧ r₁ = .error (.err e₁) ∧ Alike q.peerIp e₀ e₁ := by
  intro h
  obtain ⟨r₀, w₀', hx₀, hr₀⟩ := exists_exec_semUp (wrongLogin.prog sampleState samplePages)
    [.ok, .ok] (loginWorld []) (fun r _ => (errorOf r).any fun e => !e.2) (by decide +kernel)
  obtain ⟨r₁, w₁', hx₁, hr₁⟩ := exists_exec_semUp (wrongLogin.prog sampleState samplePages)
    [.ok, .ok, .ok] (loginWorld [sampleUser]) (fun r _ => (errorOf r).any fun e => e.2)
    (by decide +kernel)
  obtain ⟨e₀, e₁, rfl, rfl, halike⟩ := h sampleState samplePages wrongLogin "alice@localhost" "wrong"
    sampleUser _ w₀' _ w₁' r₀ r₁ rfl rfl wrongPassword_sampleUser noAccount_loginWorld
    (hasAccount_loginWorld rfl) hx₀ hx₁
  have hr₀ : (!e₀.2) = true := hr₀
  have hr₁ : e₁.2 = true := hr₁
  rw [halike.flag, hr₁] at hr₀
  cases hr₀

/-! ### Sequences of logins -/

/-- A login from one IP: the request, what it found in the stores, and its answer. -/
structure LoginAttempt where
  req : LoginReq
  world : World
  res : Except ErrorResponse LoginAnswer

namespace LoginAttempt

def Failed (a : LoginAttempt) : Prop := ∃ e, a.res = .error e

instance (a : LoginAttempt) : Decidable a.Failed :=
  match h : a.res with
  | .error e => isTrue ⟨e, h⟩
  | .ok _ => isFalse fun ⟨e, he⟩ => by rw [h] at he; cases he

end LoginAttempt

/-- The request authenticates an account: its password is validated, and there is no passkey
that it would have to present as well. -/
def LoginReq.Authenticates (data : AppState) (q : LoginReq) (w : World) : Prop :=
  ∃ email plain u hash, q.credentials = some (email, plain) ∧ HasAccount data email u w ∧
    u.password = some hash ∧ data.comparePasswords plain hash = .ok true ∧ u.webauthnUserId = none

/-- The password validates against the hash of the account. -/
def User.Validates (data : AppState) (u : User) (plain : String) : Prop :=
  ∃ hash, u.password = some hash ∧ data.comparePasswords plain hash = .ok true

/-- The request gives a password, and either nobody has the e-mail and it is a password grant, or
the account has no passkeys as far as the password is the right one. -/
def LoginReq.Plain (data : AppState) (q : LoginReq) (w : World) : Prop :=
  ∃ email plain, q.credentials = some (email, plain) ∧
    ((q.IsToken ∧ NoAccount data email w) ∨
      ∃ u, HasAccount data email u w ∧ (u.Validates data plain → u.webauthnUserId = none))

/-- The logins from the IP `ip` so far, the last one first, the handler after them, and the events
that have not come back yet, if each login satisfies `C` of its request and of the stores, and each
event that comes back `E` of the handler.  The stores can change in between. -/
inductive Logins (data : AppState) (pages : LoginPages) (C : LoginReq → World → Prop)
    (E : IpHandler → DelayEvent → Prop) (ip : String) :
    List LoginAttempt → IpHandler → List DelayEvent → Prop
  | start : Logins data pages C E ip [] IpHandler.init []
  | login {l : List LoginAttempt} {h : IpHandler} {es : List DelayEvent} {q : LoginReq}
      {w w' : World} {d : Delayed LoginAnswer} (hl : Logins data pages C E ip l h es)
      (hip : q.peerIp = some ip) (hC : C q w)
      (hx : Exec semUp (q.handle data pages h) w (.ok d) w') :
      Logins data pages C E ip (⟨q, w, d.res⟩ :: l) d.handler (es ++ d.events)
  | echo {l : List LoginAttempt} {h : IpHandler} {es₁ es₂ : List DelayEvent} {e : DelayEvent}
      (now : Int) (hl : Logins data pages C E ip l h (es₁ ++ e :: es₂)) (hE : E h e) :
      Logins data pages C E ip l (h.recv now e.echo).1 (es₁ ++ es₂)

/-- The event comes back to a counter that is not lower than its number, as it is until a login
resets the counter. -/
def DelayEvent.Timely (h : IpHandler) : DelayEvent → Prop
  | invalidLogin failedLogins ip => ∃ c, h.dataFailedLogins.lookup ip = some c ∧ failedLogins ≤ c
  | ipBlacklisted _ _ => True

/-- The failed logins since the last one that was answered otherwise. -/
def failures (l : List LoginAttempt) : ℕ := (l.takeWhile fun a => decide a.Failed).length

/-- What the counter of an IP is for. -/
structure LoginsCounted (data : AppState) (ip : String) (l : List LoginAttempt) (h : IpHandler) :
    Prop where
  /-- the counter is only reset by a login that authenticates an account -/
  authenticated : ∀ a ∈ l, ¬ a.Failed → a.req.Authenticates data a.world
  /-- in between it counts all failed logins -/
  counter : h.dataFailedLogins.lookup ip =
    if failures l = 0 then none else some (failures l % 2 ^ 32)
  /-- and blocks the IP at the thresholds -/
  blocked : ∀ a l', (a :: l') <:+ l → a.Failed → blockSecs (failures (a :: l') % 2 ^ 32) ≠ none →
    ∃ ts msg, a.res = .error ⟨.tooManyRequests ts, msg⟩

section Logins

variable {data : AppState} {pages : LoginPages} {w : World}
  {β : Type} {u : User} {plain ip : String} {req : HttpRequest} {reqData : LoginRequest}
  {h : IpHandler}

/-- The errors of this outcome add the login delay. -/
def Flagged {β : Type} (r : Except (Fault (ErrorResponse × Bool)) β) : Prop :=
  ∀ e b, r = .error (.err (e, b)) → b = true

theorem flagged_mapErr {p : M ErrorResponse β} :
    Outcomes semUp (mapErr (·, true) p) w fun r _ => Flagged r := by
  refine outcomes_mapErr fun r w' _ e b he => ?_
  rcases r with (e' | msg) | a
  · cases he
    rfl
  · cases he
  · cases he

theorem flagged_ok (b : β) : Flagged (.ok b : Except (Fault (ErrorResponse × Bool)) β) :=
  fun _ _ h => by cases h

theorem flagged_bind {γ : Type} {p : M (ErrorResponse × Bool) β}
    {f : β → M (ErrorResponse × Bool) γ} (hp : Outcomes semUp p w fun r _ => Flagged r)
    (hf : ∀ b w, Outcomes semUp (f b) w fun r _ => Flagged r) :
    Outcomes semUp (p >>= f) w fun r _ => Flagged r := by
  refine outcomes_bind (outcomes_mono hp fun r w₁ hr => ?_)
  rcases r with e | b
  · intro e' b he
    cases he
    exact hr e' b rfl
  · exact hf b w₁

theorem validatePassword_ok :
    Outcomes semUp (u.validatePassword data plain) w fun r _ => r = .ok () →
      ∃ hash, u.password = some hash ∧ data.comparePasswords plain hash = .ok true := by
  have hcmp : ∀ w, Outcomes semUp (u.comparePassword data plain) w fun r _ => r = .ok () →
      ∃ hash, u.password = some hash ∧ data.comparePasswords plain hash = .ok true := by
    intro w
    unfold User.comparePassword User.matchPasswords
    rcases hp : u.password with - | hash
    · exact outcomes_bind (outcomes_fail fun h => by cases h)
    · refine outcomes_bind (outcomes_answer (fun b hb => ?_) fun e _ h => by cases h)
      refine outcomes_throwIf (fun hne _ => ⟨hash, rfl, ?_⟩) fun _ h => by cases h
      rw [hb]
      cases b with
      | true => rfl
      | false => exact absurd rfl hne
  refine outcomes_bind (outcomes_throwIf (fun _ => ?_) fun _ h => by cases h)
  dsimp only
  split
  · exact hcmp w
  · refine outcomes_bind (answered_unixTimestamp fun ms _ => ?_)
    dsimp only
    split
    · refine outcomes_bind (outcomes_throwIf (fun _ => ?_) fun _ h => by cases h)
      refine outcomes_bind fun r w₁ _ => ?_
      rcases r with e | ⟨⟩
      · exact fun h => by cases h
      · refine outcomes_bind fun r w₂ _ => ?_
        rcases r with e | a
        · exact fun h => by cases h
        · exact outcomes_fail fun h => by cases h
    · exact hcmp _

theorem flagged_authorizeClient :
    Outcomes semUp (authorizeClient data req reqData u true) w fun r _ => Flagged r := by
  refine flagged_bind flagged_mapErr fun client w => ?_
  refine flagged_bind flagged_mapErr fun _ w => ?_
  refine flagged_bind flagged_mapErr fun _ w => ?_
  refine flagged_bind flagged_mapErr fun _ w => ?_
  exact flagged_bind flagged_mapErr fun _ w => outcomes_ret (flagged_ok _)

theorem flagged_mapAuthStep {step : AuthStep} :
    Outcomes semUp (mapAuthStep data pages req step) w fun r _ => Flagged r := by
  cases step with
  | loggedIn res => exact outcomes_ret (flagged_ok _)
  | awaitWebauthn res =>
      refine flagged_bind ?_ fun cookie w => outcomes_ret (flagged_ok _)
      refine outcomes_bind (outcomes_tried fun r w₁ _ => ?_)
      rcases r with (e | msg) | c
      · exact flagged_bind flagged_mapErr fun cookie w => outcomes_ret (flagged_ok _)
      · exact fun _ _ h => by cases h
      · dsimp only
        split
        · exact flagged_bind flagged_mapErr fun cookie w => outcomes_ret (flagged_ok _)
        · exact outcomes_ret (flagged_ok _)
  | providerLink => exact outcomes_ret (flagged_ok _)

theorem checkLoginPassword_some :
    Outcomes semUp (checkLoginPassword data u (some plain)) w fun r _ => ∀ a, r = .ok a →
      a.2 = true ∧ ∃ hash, u.password = some hash ∧ data.comparePasswords plain hash = .ok true := by
  refine outcomes_bind (outcomes_mono validatePassword_ok fun r w₁ hr => ?_)
  rcases r with e | ⟨⟩
  · exact fun _ h => by cases h
  refine outcomes_bind (answered_unixTimestamp fun ms _ => outcomes_bind fun r w₂ _ => ?_)
  rcases r with e | ⟨⟩
  · exact fun _ h => by cases h
  · refine outcomes_ret fun a ha => ?_
    cases ha
    exact ⟨rfl, hr rfl⟩

/-- With a password and an account, every error of a login adds the delay. -/
theorem flagged_authorize {session : Session} (hpwd : reqData.password = some plain)
    (hacc : HasAccount data reqData.email u w) :
    Outcomes semUp (authorize data req reqData session) w fun r _ => Flagged r := by
  refine outcomes_bind (outcomes_mono (authorizeUser_known hpwd hacc) fun r w₁ hr => ?_)
  rcases hr with rfl | ⟨e, rfl⟩
  · refine outcomes_bind fun r w₂ hx => ?_
    rw [hpwd] at hx
    rcases r with e | ⟨u', hashed⟩
    · intro e' b he
      cases he
      exact flagged_mapErr _ _ hx e' b rfl
    · obtain ⟨rfl, -⟩ := checkLoginPassword_some _ _ (exec_mapErr.mp hx) _ rfl
      refine flagged_bind flagged_authorizeClient fun c w => ?_
      exact flagged_bind flagged_mapErr fun code w => flagged_mapErr
  · intro e' b he
    cases he
    rfl

theorem authorize_validates {session : Session} (hpwd : reqData.password = some plain)
    (hacc : HasAccount data reqData.email u w) {step : AuthStep} {w' : World}
    (hx : Exec semUp (authorize data req reqData session) w (.ok step) w') :
    u.Validates data plain := by
  obtain ⟨u', w₁, huser, hx⟩ := exec_bind_ok.mp hx
  obtain ⟨c, w₂, hpass, -⟩ := exec_bind_ok.mp hx
  rw [hpwd] at hpass
  rcases authorizeUser_known hpwd hacc _ _ huser with hu | ⟨e, he⟩
  · cases hu
    exact (checkLoginPassword_some _ _ (exec_mapErr.mp hpass) _ rfl).2
  · cases he

theorem passwordUser_validates {email : String} {client : Client} {fingerprint : Option String}
    {headers : Headers} (h : HasAccount data email u w) :
    Outcomes semUp (passwordUser data email plain client fingerprint headers) w fun r _ =>
      ∀ a, r = .ok a → u.Validates data plain := by
  intro r w' hx a ha
  rw [ha] at hx
  obtain ⟨u', w₁, huser, hx⟩ := exec_bind_ok.mp hx
  obtain ⟨hu, -⟩ := h.find _ _ (exec_mapErr.mp huser)
  cases hu
  obtain ⟨_, w₂, -, hx⟩ := exec_bind_ok.mp hx
  obtain ⟨_, w₃, -, hx⟩ := exec_bind_ok.mp hx
  obtain ⟨x, w₄, hpass, hx⟩ := exec_bind_ok.mp hx
  rcases x with e | ⟨⟩
  · obtain ⟨_, w₅, -, hfail⟩ := exec_bind_ok.mp hx
    cases hfail.1
  · exact validatePassword_ok _ _ (exec_tried.mp hpass) rfl

/-- **One login** that is `Plain`: every error adds the delay, and success means that the account
is authenticated. -/
theorem login_plain {q : LoginReq} (h : q.Plain data w) :
    Outcomes semUp (q.prog data pages) w fun r _ =>
      Flagged r ∧ ∀ a, r = .ok a → q.Authenticates data w := by
  obtain ⟨email, plain, hcred, hacc⟩ := h
  intro r w' hx
  suffices h : Flagged r ∧ ∀ a, r = .ok a → ∃ u, HasAccount data email u w ∧
      u.Validates data plain ∧ u.webauthnUserId = none by
    refine ⟨h.1, fun a ha => ?_⟩
    obtain ⟨u, hacc, ⟨hash, hhash, hcmp⟩, hkey⟩ := h.2 a ha
    exact ⟨email, plain, u, hash, hcred, hacc, hhash, hcmp, hkey⟩
  cases q with
  | authorize req reqData session =>
      obtain ⟨hpwd, rfl⟩ : reqData.password = some plain ∧ reqData.email = email := by
        rcases hp : reqData.password with - | pwd
        · simp [LoginReq.credentials, hp] at hcred
        · simp only [LoginReq.credentials, hp, Option.map_some, Option.some.injEq, Prod.mk.injEq] at hcred
          exact ⟨by rw [hcred.2], hcred.1⟩
      obtain ⟨⟨⟩, -⟩ | ⟨u, hacc, hkey⟩ := hacc
      refine ⟨flagged_bind (flagged_authorize hpwd hacc) (fun _ _ => flagged_mapAuthStep) _ _ hx,
        fun a ha => ?_⟩
      rw [ha] at hx
      obtain ⟨step, w₁, hstep, -⟩ := exec_bind_ok.mp hx
      have hvalid := authorize_validates hpwd hacc hstep
      exact ⟨u, hacc, hvalid, hkey hvalid⟩
  | token req reqData =>
      obtain ⟨hgrant, huser, hpwd⟩ := LoginReq.of_token_credentials hcred
      have hflag : decide (reqData.grantType = "password") = true := decide_eq_true hgrant
      have hset : getTokenSet data req reqData = grantTypePassword data req reqData := by
        rw [getTokenSet, if_neg (by rw [hgrant]; decide), if_neg (by rw [hgrant]; decide),
          if_pos hgrant]
      unfold LoginReq.prog at hx
      simp only [hflag, hset] at hx
      refine ⟨flagged_bind flagged_mapErr (fun _ _ => outcomes_ret (flagged_ok _)) _ _ hx,
        fun a ha => ?_⟩
      rw [ha] at hx
      obtain ⟨ts, w₁, hts, -⟩ := exec_bind_ok.mp hx
      have hgrant := exec_mapErr.mp hts
      clear hx hts
      unfold grantTypePassword at hgrant
      rw [huser, hpwd] at hgrant
      obtain ⟨_, _, ⟨he, rfl⟩, hgrant⟩ := exec_bind_ok.mp hgrant
      cases he
      obtain ⟨_, _, ⟨hp, rfl⟩, hgrant⟩ := exec_bind_ok.mp hgrant
      cases hp
      obtain ⟨⟨clientId, secret⟩, w₂, hid, hrest⟩ := exec_bind_ok.mp hgrant
      obtain ⟨⟨client, fp, headers⟩, w₃, hclient, huser⟩ := exec_bind_ok.mp hrest
      obtain ⟨-, rfl⟩ := exec_answer.mp hid
      have hf := (passwordClient_touches data req clientId secret).frame hclient.of_answering
      rcases hacc with ⟨-, hno⟩ | ⟨u, hacc, hkey⟩
      · cases passwordUser_unknown (hno.frame hf (by simp) (by simp)) _ _ huser
      · have hvalid := passwordUser_validates (hacc.frame hf (by simp) (by simp)) _ _ huser _ rfl
        exact ⟨u, hacc, hvalid, hkey hvalid⟩

/-- A failed login is counted, and the handler answers with the new count. -/
theorem tell_loginCheck {n : ℕ}
    (hn : h.dataFailedLogins.lookup ip = if n = 0 then none else some (n % 2 ^ 32)) (now : Int) :
    (h.recv now (.loginCheck ip true)).1.dataFailedLogins.lookup ip = some ((n + 1) % 2 ^ 32) ∧
      (h.recv now (.loginCheck ip true)).2 = .counter (some ((n + 1) % 2 ^ 32)) := by
  by_cases h0 : n = 0
  · rw [if_pos h0] at hn
    subst h0
    unfold IpHandler.recv
    simp [hn]
  · rw [if_neg h0] at hn
    have hmod : (n % 2 ^ 32 + 1) % 2 ^ 32 = (n + 1) % 2 ^ 32 := by omega
    unfold IpHandler.recv
    simp only [hn, if_true, AList.lookup_insert, hmod]
    exact ⟨trivial, trivial⟩

theorem handle_plain {q : LoginReq} (hip : q.peerIp = some ip) (hq : q.Plain data w) :
    Outcomes semUp (q.handle data pages h) w fun r _ => ∀ d, r = .ok d →
      ((∃ a, d.res = .ok a) ∧ q.Authenticates data w ∧
        d.handler.dataFailedLogins = h.dataFailedLogins.erase ip) ∨
      ∃ e now median, d = delayFailed pages h now (some ip) median (e, true) := by
  refine outcomes_bind (outcomes_call fun start w₁ hx => outcomes_ret ?_)
  obtain ⟨-, rfl⟩ := sem_now.mp hx.1
  have hq₁ : q.Plain data { w with clock := start } := by
    obtain ⟨email, plain, hcred, ⟨htoken, hno⟩ | ⟨u, hacc, hkey⟩⟩ := hq
    · exact ⟨email, plain, hcred, .inl ⟨htoken, hno.row, hno.copy⟩⟩
    · exact ⟨email, plain, hcred, .inr ⟨u, ⟨hacc.row, hacc.copy⟩, hkey⟩⟩
  refine outcomes_bind (outcomes_tried (outcomes_mono (login_plain hq₁) fun r w₂ hr => ?_))
  obtain ⟨hflag, hauth⟩ := hr
  have hcache : ∀ res : LoginRes LoginAnswer, Outcomes semUp
      (handleLoginDelay pages h q.peerIp start res) w₂ fun r _ => ∀ d, r = .ok d →
        match res with
        | .ok a => d.res = .ok a.1 ∧ d.handler.dataFailedLogins = h.dataFailedLogins.erase ip
        | .error e => ∃ now median, d = delayFailed pages h now (some ip) median e := by
    intro res
    refine outcomes_bind fun r w₃ _ => ?_
    rcases r with e | st
    · exact fun d hd => by cases hd
    refine outcomes_bind (outcomes_call fun ms w₄ _ => outcomes_ret ?_)
    rw [hip]
    rcases res with e | ⟨a, hashed⟩
    · exact outcomes_bind (answered_unixTimestamp fun ms _ => outcomes_ret fun d hd => by
        cases hd
        exact ⟨_, _, rfl⟩)
    · refine outcomes_bind fun r w₅ _ => ?_
      rcases r with e | ⟨⟩
      · exact fun d hd => by cases hd
      · refine outcomes_ret fun d hd => ?_
        cases hd
        exact ⟨rfl, rfl⟩
  rcases r with (⟨e, b⟩ | msg) | a
  · obtain rfl := hflag e b rfl
    refine outcomes_mono (hcache (.error (e, true))) fun r w₃ hr d hd => .inr ?_
    obtain ⟨now, median, hd⟩ := hr d hd
    exact ⟨e, now, median, hd⟩
  · exact fun d hd => by cases hd
  · refine outcomes_mono (hcache (.ok a)) fun r w₃ hr d hd => .inl ?_
    obtain ⟨hres, hh⟩ := hr d hd
    obtain ⟨email, plain, u, hash, hcred, hacc, hrest⟩ := hauth a rfl
    exact ⟨⟨_, hres⟩, ⟨email, plain, u, hash, hcred, ⟨hacc.row, hacc.copy⟩, hrest⟩, hh⟩

theorem failures_cons {a : LoginAttempt} {l : List LoginAttempt} :
    failures (a :: l) = if a.Failed then failures l + 1 else 0 := by
  unfold failures
  rw [List.takeWhile_cons]
  by_cases h : a.Failed
  · simp [h]
  · simp [h]

theorem delayFailed_counts {n : ℕ} {now : Int} {median : ℕ} {e : ErrorResponse}
    {d : Delayed LoginAnswer}
    (hn : h.dataFailedLogins.lookup ip = if n = 0 then none else some (n % 2 ^ 32))
    (hd : d = delayFailed pages h now (some ip) median (e, true)) :
    d.handler.dataFailedLogins.lookup ip = some ((n + 1) % 2 ^ 32) ∧
      (∃ e', d.res = .error e') ∧
      (blockSecs ((n + 1) % 2 ^ 32) ≠ none → ∃ ts msg, d.res = .error ⟨.tooManyRequests ts, msg⟩) := by
  obtain ⟨hlookup, hreply⟩ := tell_loginCheck hn now
  have htell : h.tell now (delayMessage (some ip) (.error (e, true) : LoginRes LoginAnswer)) =
      h.recv now (.loginCheck ip true) := rfl
  subst hd
  simp only [delayFailed, htell, hreply, failedLoginsOf]
  rcases hb : blockSecs ((n + 1) % 2 ^ 32) with - | secs
  · exact ⟨hlookup, ⟨_, rfl⟩, fun hne => absurd rfl hne⟩
  · exact ⟨hlookup, ⟨_, rfl⟩, fun _ => ⟨_, _, rfl⟩⟩

/-- An event that is in time leaves the counters as they are. -/
theorem DelayEvent.Timely.recv {e : DelayEvent} (he : e.Timely h) (now : Int) :
    (h.recv now e.echo).1.dataFailedLogins = h.dataFailedLogins := by
  cases e with
  | invalidLogin failedLogins ip =>
      obtain ⟨c, hc, hle⟩ := he
      simp only [DelayEvent.echo, IpHandler.recv, hc, if_neg (Nat.not_lt.mpr hle)]
  | ipBlacklisted exp ip =>
      simp only [DelayEvent.echo, IpHandler.recv]
      split <;> rfl

end Logins

/-- **Every sequence of `Plain` logins** whose events come back in time: the counter of
the IP is only reset by a login that authenticates an account, and all failed logins in between
are counted and lead to the thresholds. -/
theorem logins_counted {data : AppState} {pages : LoginPages} {ip : String}
    {l : List LoginAttempt} {h : IpHandler} {es : List DelayEvent}
    (hl : Logins data pages (fun q w => q.Plain data w) (fun h e => e.Timely h) ip l h es) :
    LoginsCounted data ip l h := by
  induction hl with
  | echo now hl hE ih =>
      refine ⟨ih.authenticated, ?_, ih.blocked⟩
      rw [hE.recv]
      exact ih.counter
  | start =>
      refine ⟨fun a ha => (by cases ha), rfl, fun a l' hs => ?_⟩
      simp at hs
  | login hl hip hq hx ih =>
      rename_i l h es q w w' d
      rcases handle_plain hip hq _ _ hx d rfl with ⟨⟨a, ha⟩, hauth, hh⟩ | ⟨e, now, median, hd⟩
      · have hok : ¬ (LoginAttempt.mk q w d.res).Failed := by
          rintro ⟨e, he⟩
          rw [show d.res = _ from he] at ha
          cases ha
        refine ⟨fun b hb hf => ?_, ?_, fun b l' hs hf => ?_⟩
        · rcases List.mem_cons.mp hb with rfl | hb
          · exact hauth
          · exact ih.authenticated b hb hf
        · rw [failures_cons, if_neg hok, if_pos rfl, hh, AList.lookup_erase]
        · rcases List.suffix_cons_iff.mp hs with heq | hs
          · cases heq
            exact absurd hf hok
          · exact ih.blocked b l' hs hf
      · obtain ⟨hlookup, hfail, hblock⟩ := delayFailed_counts ih.counter hd
        have hfailed : (LoginAttempt.mk q w d.res).Failed := hfail
        have hn : failures (⟨q, w, d.res⟩ :: l) = failures l + 1 := by
          rw [failures_cons, if_pos hfailed]
        refine ⟨fun b hb hf => ?_, ?_, fun b l' hs hf hb => ?_⟩
        · rcases List.mem_cons.mp hb with rfl | hb
          · exact absurd hfailed hf
          · exact ih.authenticated b hb hf
        · rw [hn, if_neg (by omega), hlookup]
        · rcases List.suffix_cons_iff.mp hs with heq | hs
          · cases heq
            rw [hn] at hb
            exact hblock hb
          · exact ih.blocked b l' hs hf hb

theorem exists_wrongGrant :
    ∃ d w', Exec semUp (wrongGrant.handle sampleState samplePages IpHandler.init)
        (loginWorld [sampleUser]) (.ok d) w' ∧ (∃ e, d.res = .error e) ∧
      d.events = [.invalidLogin 1 "10.0.0.1"] ∧
      d.handler.dataFailedLogins.lookup "10.0.0.1" = some 1 := by
  obtain ⟨r, w', hx, hr⟩ := exists_exec_semUp
    (wrongGrant.handle sampleState samplePages IpHandler.init)
    [.time 100000, .ok, .ok, .ok, .ok, .ok, .ok, .time 100000, .ok, .ok, .ok, .ok, .time 100000,
      .time 100000] (loginWorld [sampleUser])
    (fun r _ => r.toOption.any fun d : Delayed LoginAnswer => !d.res.isOk &&
      decide (d.events = [.invalidLogin 1 "10.0.0.1"] ∧
        d.handler.dataFailedLogins.lookup "10.0.0.1" = some 1)) (by decide +kernel)
  rcases r with e | d
  · cases hr
  obtain ⟨hres, hd⟩ := Bool.and_eq_true_iff.mp hr
  obtain ⟨hevents, hcounter⟩ := of_decide_eq_true hd
  refine ⟨d, w', hx, ?_, hevents, hcounter⟩
  rcases hd : d.res with e | a
  · exact ⟨e, rfl⟩
  · rw [hd] at hres
    cases hres

/-- The event about it comes back right away. -/
theorem logins_counted_alice :
    ∃ a h, Logins sampleState samplePages (fun q w => q.Plain sampleState w)
        (fun h e => e.Timely h) "10.0.0.1" [a] h [] ∧
      a.Failed ∧ LoginsCounted sampleState "10.0.0.1" [a] h := by
  obtain ⟨d, w', hx, hfailed, hevents, hcounter⟩ := exists_wrongGrant
  have hplain : wrongGrant.Plain sampleState (loginWorld [sampleUser]) :=
    ⟨"alice@localhost", "wrong", rfl, .inr ⟨sampleUser, hasAccount_loginWorld rfl, fun _ => rfl⟩⟩
  have hl : Logins sampleState samplePages (fun q w => q.Plain sampleState w)
      (fun h e => e.Timely h) "10.0.0.1" [⟨wrongGrant, loginWorld [sampleUser], d.res⟩] d.handler
      ([] ++ .invalidLogin 1 "10.0.0.1" :: []) := hevents ▸ .login .start rfl hplain hx
  have hecho := hl.echo 100 ⟨1, hcounter, le_refl 1⟩
  exact ⟨_, _, hecho, hfailed, logins_counted hecho⟩

/-- A login without a password, for an account that has only a passkey. -/
def passkeyLogin : LoginReq :=
  .authorize loginReq { (default : LoginRequest) with
    email := "alice@localhost", clientId := "app", redirectUri := "https://app/callback" } default

def passkeyUser : User := { sampleUser with password := none, webauthnUserId := some "passkeys" }

/-- The counter is reset by a login that has presented neither a password nor a passkey. -/
theorem reset_without_authentication :
    ¬ ∀ (data : AppState) (pages : LoginPages) (ip : String) (l : List LoginAttempt)
        (h : IpHandler) (es : List DelayEvent),
      Logins data pages (fun _ _ => True) (fun _ _ => True) ip l h es →
        LoginsCounted data ip l h := by
  intro hall
  obtain ⟨r, w', hx, hr⟩ := exists_exec_semUp
    (passkeyLogin.handle sampleState samplePages IpHandler.init)
    [.time 100000, .ok, .ok, .ok, .ok, .ok, .ok, .rand (String.ofList (List.replicate 64 'a')),
      .time 100000, .ok, .ok, .ok, .rand (String.ofList (List.replicate 48 'b')), .ok, .ok,
      .time 100000] (loginWorld [passkeyUser])
    (fun r _ => r.toOption.any fun d => d.res.isOk) (by decide +kernel)
  rcases r with e | d
  · cases hr
  have hl : Logins sampleState samplePages (fun _ _ => True) (fun _ _ => True) "10.0.0.1"
      [⟨passkeyLogin, loginWorld [passkeyUser], d.res⟩] d.handler ([] ++ d.events) :=
    .login .start rfl trivial hx
  have hok : ¬ (LoginAttempt.mk passkeyLogin (loginWorld [passkeyUser]) d.res).Failed := by
    rintro ⟨e, he⟩
    have hr : d.res.isOk = true := hr
    rw [show d.res = _ from he] at hr
    cases hr
  -- the response awaits a passkey, yet it counts as a success
  obtain ⟨email, plain, u, hash, hcred, -⟩ := (hall _ _ _ _ _ _ hl).authenticated _ (by simp) hok
  cases hcred

end Rauthy
