/-
Rauthy/LoginRuns.lean

The endpoints around the logins, with the MFA cookies that go along with their answers, in any
interleaving with other programs that only do what is quiet.

Each request promises what it stores: a code for a user that the login is vouched for, the data
of a ceremony for passkeys that it has found, an authenticated session for a code that it has
found.

Main results:
  * `sees_loginCall`, the promises of every request;
  * `Run.happened_at`, which brings the promises and the condition of a run to each of its events;
  * `Run.found_put`: what is found in a cache was there at the beginning, or has been put there.
-/
import Rauthy.QuietSteps

namespace Rauthy

open Prog Pool Bincode

variable {data : AppState} {tr tr' : List (Seen Op Op.Res)} {pages : LoginPages}
  {C : World → LoginRunLog → LoginRunEvent → Prop}

/-! ### The system -/

/-- A request to one of the endpoints, or another program that keeps quiet. -/
inductive LoginCall where
  | endpoint (q : Request)
  | other (p : M ErrorResponse Unit) (h : Sees Op.Possible QuietStep p (fun _ _ => True) [])

/-- An answer, and the MFA cookie that is set along with it. -/
structure LoginResponse where
  answer : Option Answer
  mfaCookie : Option String
  deriving DecidableEq

/-- The request that a login belongs to. -/
def Request.loginReq? : Request → Option HttpRequest
  | authorize req _ => some req
  | authorizeRefresh req _ => some req
  | providerCallback req _ => some req
  | _ => none

def LoginAnswer.mfaCookie : LoginAnswer → Option String
  | .authStep _ cookie => cookie
  | .tokens _ _ => none

/-- The cookie of `map_auth_step`, which the logins end with. -/
def mfaCookieFor (data : AppState) (pages : LoginPages) (q : Request) (a : Answer) :
    M ErrorResponse (Option String) :=
  match q.loginReq?, a with
  | some req, .step s => do
      let (answer, _) ← mapErr Prod.fst (mapAuthStep data pages req s)
      return answer.mfaCookie
  | _, _ => return none

def LoginCall.prog (data : AppState) (pages : LoginPages) : LoginCall → M ErrorResponse LoginResponse
  | endpoint q => do
      let a ← q.prog data
      let mfaCookie ← mfaCookieFor data pages q a
      return { answer := some a, mfaCookie }
  | other p _ => do
      p
      return { answer := none, mfaCookie := none }

theorem LoginCall.prog_def (data : AppState) (pages : LoginPages) :
    LoginCall.prog data pages = fun q => match q with
      | endpoint q => do
          let a ← q.prog data
          let mfaCookie ← mfaCookieFor data pages q a
          return { answer := some a, mfaCookie }
      | other p _ => do
          p
          return { answer := none, mfaCookie := none } := by
  funext q
  cases q <;> rfl

abbrev LoginRunOutcome := Except (Fault ErrorResponse) LoginResponse

abbrev LoginRunEvent := Event LoginCall Op Op.Res LoginRunOutcome

abbrev LoginRunLog := Log LoginCall Op Op.Res LoginRunOutcome

abbrev LoginRunPool := Pool LoginCall Op Op.Res World (Fault ErrorResponse) LoginResponse

/-! ### What is promised -/

/-- What a login relies on when it goes on as the user. -/
inductive Vouched (data : AppState) (u : User) (tr : List (Seen Op Op.Res)) : Request → Prop
  | password {req : HttpRequest} {reqData : LoginRequest} {plain : String} {u₀ : User}
      (hpwd : reqData.password = some plain) (hread : HasReadUser u₀ tr)
      (hvalid : u₀.Validates data plain) (hid : u₀.id = u.id) (hemail : u₀.email = u.email) :
      Vouched data u tr (.authorize req reqData)
  | cookie {req : HttpRequest} {reqData : LoginRequest} (hpwd : reqData.password = none)
      (hcookie : CookieFor data req u.email) : Vouched data u tr (.authorize req reqData)
  | passkey {req : HttpRequest} {reqData : LoginRequest} (hpwd : reqData.password = none)
      (hread : HasReadUser u tr) (htype : u.accountType = .passkey) :
      Vouched data u tr (.authorize req reqData)
  | session {req : HttpRequest} {reqData : LoginRefreshRequest} {s : Session} {uid : String}
      (hs : SessionOf req s tr) (hauth : s.state = .auth) (huid : s.userId = some uid)
      (hu : FindsUser uid u tr) : Vouched data u tr (.authorizeRefresh req reqData)
  | upstream {req : HttpRequest} {payload : ProviderCallbackRequest} {provider : AuthProvider}
      {claims : AuthProviderIdClaims} {uid : String}
      (hx : ⟨.exchangeUpstreamCode provider payload.code, .ok claims⟩ ∈ tr)
      (huid : claims.userIdOf = some uid) (hlink : LinkedTo provider uid u) :
      Vouched data u tr (.providerCallback req payload)

theorem Vouched.mono {u : User} {q : Request} (h : Vouched data u tr q) (htr : ∀ v ∈ tr, v ∈ tr') :
    Vouched data u tr' q := by
  cases h with
  | password hpwd hread hvalid hid hemail =>
      exact .password hpwd (hread.mono htr) hvalid hid hemail
  | cookie hpwd hcookie => exact .cookie hpwd hcookie
  | passkey hpwd hread htype => exact .passkey hpwd (hread.mono htr) htype
  | session hs hauth huid hu => exact .session (hs.mono htr) hauth huid (hu.mono htr)
  | upstream hx huid hlink => exact .upstream (htr _ hx) huid hlink

/-- The code belongs to the session of the login that creates it. -/
def OfSession (r : Request) (code : AuthCode) (tr : List (Seen Op Op.Res)) : Prop :=
  ∃ req s, r.loginReq? = some req ∧ SessionOf req s tr ∧ code.sessionId = some s.id

/-- A code has been created for this user. -/
def HasIssued (uid : String) (tr : List (Seen Op Op.Res)) : Prop :=
  ∃ k code x, ⟨.cachePut .authCodes k (.authCode code), x⟩ ∈ tr ∧ code.userId = uid

/-- The login asks this user for no passkey. -/
def Request.SkipsKey (data : AppState) (p : Request) (u : User) : Prop :=
  u.hasWebauthnEnabled = false ∨
    data.sessionRenewMfa = false ∧ ∃ req reqData, p = .authorizeRefresh req reqData

/-- All codes created so far are this user's. -/
def CodesOf (uid : String) (tr : List (Seen Op Op.Res)) : Prop :=
  ∀ v ∈ tr, ∀ k code, v.1 = .cachePut .authCodes k (.authCode code) → code.userId = uid

/-- Neither a code nor data of a ceremony have been stored so far. -/
def NoCodes (tr : List (Seen Op Op.Res)) : Prop :=
  ∀ v ∈ tr, v.1.PutsNone [.authCodes, .webauthnData]

/-- What is stored among the data of the ceremonies: the request of a login for the user of its
code, the request of another service, or a ceremony for the passkeys of a user. -/
inductive StoresData (data : AppState) (tr : List (Seen Op Op.Res)) : LoginCall → CacheVal → Prop
  | login {q : Request} {d : WebauthnLoginReq} (hq : q.loginReq?.isSome = true)
      (hfits : d.Fits = true) (hloc : ∃ uri code state, d.headerLoc = codeLocation uri code state)
      (hcodes : CodesOf d.userId tr) : StoresData data tr (.endpoint q) (.bytes d.encode)
  | service {req : HttpRequest} {id : String} {purpose : MfaPurpose} {d : WebauthnServiceReq}
      (hfits : d.Fits = true) :
      StoresData data tr (.endpoint (.authStart req id purpose)) (.bytes d.encode)
  | ceremony {req : HttpRequest} {id : String} {purpose : MfaPurpose} {wd : WebauthnData} {u : User}
      {uv : Bool} {pks : List PasskeyEntity} {st : PasskeyAuthentication} (hfits : wd.Fits = true)
      (hread : HasReadUser u tr) (hkeys : ∃ v ∈ tr, ReadsPasskeys u.id uv pks v)
      (hst : st.credentials = pks.map fun pk => pk.passkey.credId)
      (hjson : wd.authStateJson = data.authStateToJson st) :
      StoresData data tr (.endpoint (.authStart req id purpose)) (.bytes wd.encode)

/-- A code has been found, and its session becomes one of its user. -/
def RedeemsCode (tr : List (Seen Op Op.Res)) (s : Session) : Prop :=
  ∃ idx code sid s₀ u, ⟨.cacheGet .authCodes idx, .ok (some (.authCode code))⟩ ∈ tr ∧
    code.sessionId = some sid ∧ (∃ v ∈ tr, ReadsSession sid s₀ v) ∧ s.id = s₀.id ∧
    FindsUser code.userId u tr ∧ s.userId = some u.id

theorem RedeemsCode.mono {s : Session} (h : RedeemsCode tr s) (htr : ∀ v ∈ tr, v ∈ tr') :
    RedeemsCode tr' s := by
  obtain ⟨idx, code, sid, s₀, u, hmem, hsid, ⟨v, hv, hread⟩, hid, hu, huid⟩ := h
  exact ⟨idx, code, sid, s₀, u, htr _ hmem, hsid, ⟨v, htr v hv, hread⟩, hid, hu.mono htr, huid⟩

/-- What a request promises of each of its operations. -/
structure LoginStep (data : AppState) (q : LoginCall) (tr : List (Seen Op Op.Res))
    (s : Seen Op Op.Res) : Prop where
  codes : ∀ k v, s.1 = .cachePut .authCodes k v → NoCodes tr ∧ ∃ r code u, q = .endpoint r ∧
    v = .authCode code ∧ code.userId = u.id ∧ OfSession r code tr ∧ Vouched data u tr r
  data : ∀ k v, s.1 = .cachePut .webauthnData k v → StoresData data tr q v
  lists : ∀ k ls, s.1 = .cachePut .webauthn k (.passkeys ls) → ∃ uid uv,
    k = PasskeyEntity.cacheIdxUser uid ∧ ⟨.select .passkeys (passkeyFilter uid uv), .ok ls⟩ ∈ tr
  sessions : ∀ s', WritesSession s' s.1 → s'.state = .auth → CopiedSession tr s' ∨ RedeemsCode tr s'
  updates : UpdatesQuietly s.1

theorem QuietStep.login {q : LoginCall} {s : Seen Op Op.Res} (h : QuietStep tr s) :
    LoginStep data q tr s where
  codes k v he := by
    have hno := h.puts
    rw [he] at hno
    exact absurd (by simp) hno
  data k v he := by
    have hno := h.puts
    rw [he] at hno
    exact absurd (by simp) hno
  lists := h.lists
  sessions s' hw hauth := .inl (h.sessions s' hw hauth)
  updates := h.updates

/-- The e-mail of the user that a login has ended with. -/
def AuthStep.email? : AuthStep → Option String
  | .loggedIn s => some s.email
  | .awaitWebauthn s => some s.email
  | .providerLink => none

/-- What a login that goes on as this user has seen. -/
structure Request.GoesOnAs (data : AppState) (p : Request) (s : AuthStep) (u : User)
    (tr : List (Seen Op Op.Res)) : Prop where
  vouched : Vouched data u tr p
  issued : HasIssued u.id tr
  met : MetAs u tr
  skips : ∀ s', s = .loggedIn s' → p.SkipsKey data u

theorem Request.GoesOnAs.mono {p : Request} {s : AuthStep} {u : User} (h : p.GoesOnAs data s u tr)
    (htr : ∀ v ∈ tr, v ∈ tr') :
    p.GoesOnAs data s u tr' where
  vouched := h.vouched.mono htr
  issued := by
    obtain ⟨k, code, x, hmem, hid⟩ := h.issued
    exact ⟨k, code, x, htr _ hmem, hid⟩
  met := h.met.mono htr
  skips := h.skips

/-- What a login has seen that ends with this step. -/
def Request.Steps (data : AppState) (p : Request) (s : AuthStep) (tr : List (Seen Op Op.Res)) :
    Prop :=
  ∀ email, s.email? = some email → ∃ u, p.GoesOnAs data s u tr ∧ u.email = email

/-- The id token of a token request: without MFA, or for the user of a code that was found. -/
def TokenEnds (data : AppState) (a : DeviceAnswer) (tr : List (Seen Op Op.Res)) : Prop :=
  ∀ ts, a = .ok ts → SignedWith data "pwd" ts ∨ ∃ idx code u,
    ⟨.cacheGet .authCodes idx, .ok (some (.authCode code))⟩ ∈ tr ∧ FindsUser code.userId u tr ∧
      SignedWith data (if u.hasWebauthnEnabled then "mfa" else "pwd") ts

theorem TokenEnds.mono {a : DeviceAnswer} (h : TokenEnds data a tr) (htr : ∀ v ∈ tr, v ∈ tr') :
    TokenEnds data a tr' := by
  intro ts hts
  rcases h ts hts with hpwd | ⟨idx, code, u, hmem, hu, hsign⟩
  · exact .inl hpwd
  · exact .inr ⟨idx, code, u, htr _ hmem, hu.mono htr, hsign⟩

/-- What an endpoint that answers has seen. -/
structure Request.Ends (data : AppState) (p : Request) (a : Answer) (tr : List (Seen Op Op.Res)) :
    Prop where
  steps : ∀ s, a = .step s → p.Steps data s tr
  tokens : ∀ a', a = .token a' → TokenEnds data a' tr
  finished : ∀ d, a = .authFinished d → ∃ id req wd, p = .authFinish id req ∧ wd.data = d ∧
    FinishedCeremony data req wd tr

theorem Request.Ends.mono {p : Request} {a : Answer} (h : p.Ends data a tr)
    (htr : ∀ v ∈ tr, v ∈ tr') :
    p.Ends data a tr' where
  steps s hs email hemail := by
    obtain ⟨u, hu, he⟩ := h.steps s hs email hemail
    exact ⟨u, hu.mono htr, he⟩
  tokens a' ha := (h.tokens a' ha).mono htr
  finished d hd := by
    obtain ⟨id, req, wd, hp, hwd, hfinished⟩ := h.finished d hd
    exact ⟨id, req, wd, hp, hwd, hfinished.mono htr⟩

/-- The cookie is the one for the e-mail of a step that awaits a ceremony. -/
def CookieOfStep (pages : LoginPages) (a : Answer) (cookie : Option String) : Prop :=
  ∀ v, cookie = some v → ∃ s, a = .step (.awaitWebauthn s) ∧ pages.buildMfaCookie s.email = .ok v

/-- What a request that is answered has seen. -/
def LoginEnds (data : AppState) (pages : LoginPages) (q : LoginCall) (r : LoginResponse)
    (tr : List (Seen Op Op.Res)) : Prop :=
  match q, r.answer with
  | .endpoint p, some a => p.Ends data a tr ∧ CookieOfStep pages a r.mfaCookie
  | .endpoint _, none => False
  | .other _ _, a => a = none ∧ r.mfaCookie = none

namespace LoginStep

variable {ε α : Type} {data : AppState} {q : LoginCall} {tr : List (Seen Op Op.Res)}
  {F : α → List (Seen Op Op.Res) → Prop}
  {p : Prog Op Op.Res ε α} {req : HttpRequest}
  {reqData : TokenRequest}

/-! Parts that are quiet -/

theorem sees_of_quiet (hp : Sees Op.Possible QuietStep p F tr) :
    Sees Op.Possible (LoginStep data q) p F tr :=
  seenWp_weaken hp fun _ _ h => h.login

theorem sees_before (hp : Sees Op.Possible QuietStep p F tr) (hno : NoCodes tr) :
    Sees Op.Possible (LoginStep data q) p (fun a tr' => F a tr' ∧ NoCodes tr') tr := by
  refine sees_mono (sees_of_quiet (hp.emitted fun _ _ h => h.puts)) fun a tr' _ h => ⟨h.1, ?_⟩
  intro v hv
  exact (h.2 v hv).elim (hno v) id

theorem sees_after {uid : String}
    (hp : Sees Op.Possible QuietStep p F tr) (hcodes : CodesOf uid tr) :
    Sees Op.Possible (LoginStep data q) p (fun a tr' => F a tr' ∧ CodesOf uid tr') tr := by
  refine sees_mono (sees_of_quiet (hp.emitted fun _ _ h => h.puts)) fun a tr' _ h => ⟨h.1, ?_⟩
  intro v hv k code he
  rcases h.2 v hv with hv | hno
  · exact hcodes v hv k code he
  · rw [he] at hno
    exact absurd (by simp) hno

/-! The logins -/

section Logins

variable {r : Request} {user : User} {session : Session}
  {req : HttpRequest}
  {reqData : LoginRequest}

theorem sees_session {f : Principal → Except ErrorResponse Session} {states : List SessionState}
    (hno : NoCodes tr) (hf : ∀ p s, f p = .ok s → p.validateSessionIn states = .ok s)
    {k : Session → M ErrorResponse α}
    (hk : ∀ s tr', s.state ∈ states → SessionOf req s tr' → NoCodes tr' →
      Sees Op.Possible (LoginStep data q) (k s) F tr') :
    Sees Op.Possible (LoginStep data q) (do
      let p ← getPrincipal data req
      let s ← answer (f p)
      k s) F tr := by
  refine sees_bind (sees_before (sees_getPrincipal QuietStep.allowsSessions) hno)
    fun p tr₁ _ hp => ?_
  refine sees_bind sees_answer fun s tr₂ hsub hs => ?_
  obtain ⟨rfl, hs⟩ := hs
  obtain ⟨hsession, hstate⟩ := Principal.validateSessionIn_ok.mp (hf p s hs)
  exact hk s _ hstate (hp.1 s hsession) hp.2

theorem sees_saveCode {code : AuthCode} (hno : NoCodes tr) (hid : code.userId = user.id)
    (hsession : OfSession r code tr) (hvouched : Vouched data user tr r) :
    Sees Op.Possible (LoginStep data (.endpoint r)) code.save
      (fun _ tr' => CodesOf user.id tr' ∧ HasIssued user.id tr') tr := by
  refine sees_mono (sees_cachePut fun x => ⟨?_, ?_, ?_, ?_, ?_⟩) fun _ tr' _ htr' => ⟨?_, ?_⟩
  · rintro k v he
    cases he
    exact ⟨hno, r, code, user, rfl, rfl, hid, hsession, hvouched⟩
  · rintro k v ⟨⟩
  · rintro k ls ⟨⟩
  · rintro s' hw -
    cases hw
  · rintro ss p f ⟨⟩
  · intro v hv k c he
    rw [htr'] at hv
    rcases List.mem_cons.mp hv with rfl | hv
    · cases he
      exact hid
    · have h := hno v hv
      rw [he] at h
      exact absurd (by simp) h
  · rw [htr']
    exact ⟨_, code, _, List.mem_cons_self, hid⟩

theorem sees_newCode {client : Client} {sid challenge method nonce : Option String}
    {scopes : List String} {lifetime : Int} (hno : NoCodes tr) :
    Sees Op.Possible (LoginStep data q)
      (AuthCode.new user.id client.id sid challenge method nonce scopes lifetime)
      (fun code tr' => (code.userId = user.id ∧ code.sessionId = sid) ∧ NoCodes tr') tr := by
  have hnew : Sees Op.Possible QuietStep
      (AuthCode.new user.id client.id sid challenge method nonce scopes lifetime)
      (fun code _ => code.userId = user.id ∧ code.sessionId = sid) tr :=
    sees_bind (QuietStep.sees_pure (touches_getRand _)) fun id _ _ _ =>
      sees_bind (QuietStep.sees_pure touches_unixTimestamp) fun now _ _ _ => sees_ret ⟨rfl, rfl⟩
  exact sees_before hnew hno

/-- A login request is saved for the user of the code, and the step names its e-mail. -/
theorem sees_awaitWebauthn {hashed : Bool} {uri code : String} {state origin : Option String}
    (hr : r.loginReq?.isSome = true) (hcodes : CodesOf user.id tr) :
    Sees Op.Possible (LoginStep data (.endpoint r))
      (awaitWebauthn data user session hashed (codeLocation uri code state) origin)
      (fun s _ => s.email? = some user.email ∧ ∀ s', s ≠ .loggedIn s') tr := by
  refine sees_bind (sees_after (QuietStep.sees_pure (touches_getRand 48)) hcodes)
    fun c tr₁ _ h => ?_
  refine sees_bind (F := fun _ _ => True) ?_ fun _ _ _ _ => sees_ret ⟨rfl, fun _ => by simp⟩
  refine sees_bind sees_throwIf fun _ tr₂ _ hfits => ?_
  obtain ⟨rfl, hfits⟩ := hfits
  refine sees_mono (sees_cachePut fun x => ⟨?_, ?_, ?_, ?_, ?_⟩) fun _ _ _ _ => trivial
  · rintro k v ⟨⟩
  · rintro k v he
    cases he
    exact .login hr (Bool.eq_true_of_not_eq_false hfits) ⟨uri, code, state, rfl⟩ h.2
  · rintro k ls ⟨⟩
  · rintro s' hw -
    cases hw
  · rintro ss p f ⟨⟩

theorem sees_authorize (hs : SessionOf req session tr) (hno : NoCodes tr) :
    Sees Op.Possible (LoginStep data (.endpoint (.authorize req reqData)))
      (authorize data req reqData session)
      (fun s tr' => (Request.authorize req reqData).Steps data s tr') tr := by
  refine sees_bind (sees_before QuietStep.sees_authorizeUser hno) fun u₀ tr₁ hsub₁ h₁ => ?_
  obtain ⟨⟨hread, hnone⟩, hno₁⟩ := h₁
  refine sees_bind (sees_before (sees_mapErr QuietStep.sees_checkLoginPassword) hno₁)
    fun c tr₂ hsub₂ h₂ => ?_
  obtain ⟨⟨hid, hemail, hkey, hsame, hvalid⟩, hno₂⟩ := h₂
  have hmet : MetAs c.1 tr₂ := ((hread.mono hsub₂).met).same hid hkey
  have hvouched : Vouched data c.1 tr₂ (.authorize req reqData) := by
    rcases hpwd : reqData.password with - | plain
    · rw [hsame hpwd]
      rcases hnone hpwd with htype | hcookie
      · exact .passkey hpwd (hread.mono hsub₂) htype
      · exact .cookie hpwd hcookie
    · exact .password hpwd (hread.mono hsub₂) (hvalid plain hpwd) hid.symm hemail.symm
  obtain ⟨user, hashed⟩ := c
  have hclient : Sees Op.Possible QuietStep (authorizeClient data req reqData user hashed)
      (fun _ _ => True) tr₂ :=
    QuietStep.sees_touches (authorizeClient_touches req reqData user hashed) (by simp)
      (by simp [QuietSlots])
  refine sees_bind (sees_before hclient hno₂) fun c tr₃ hsub₃ h₃ => ?_
  obtain ⟨client, origin⟩ := c
  have hs₃ : SessionOf req session tr₃ := hs.mono fun v hv => hsub₃ v (hsub₂ v (hsub₁ v hv))
  refine sees_bind (F := fun _ tr' => CodesOf user.id tr' ∧ HasIssued user.id tr') (sees_mapErr ?_)
    fun code tr₄ hsub₄ hcodes => ?_
  · refine sees_bind (sees_newCode h₃.2) fun code tr₄ hsub₄ h₄ => ?_
    refine sees_bind (sees_saveCode h₄.2 h₄.1.1 ⟨req, session, rfl, hs₃.mono hsub₄, h₄.1.2⟩
      (hvouched.mono fun v hv => hsub₄ v (hsub₃ v hv))) fun _ _ _ h => sees_ret h
  obtain ⟨hcodes, hissued⟩ := hcodes
  have hsub : ∀ v ∈ tr₂, v ∈ tr₄ := fun v hv => hsub₄ v (hsub₃ v hv)
  have hend : ∀ s, (∀ s', s = .loggedIn s' → user.hasWebauthnEnabled = false) →
      (Request.authorize req reqData).GoesOnAs data s user tr₄ := fun s hskips =>
    ⟨hvouched.mono hsub, hissued, hmet.mono hsub, fun s' he => .inl (hskips s' he)⟩
  refine sees_mapErr ?_
  unfold authorizeStep
  split
  · have hs₄ : SessionOf req session tr₄ := hs.mono fun v hv => hsub v (hsub₂ v (hsub₁ v hv))
    refine sees_bind (sees_after (QuietStep.sees_setMfa hs₄.copied) hcodes) fun s tr₅ hsub₅ h₅ => ?_
    refine sees_mono (sees_awaitWebauthn rfl h₅.2) fun s tr₆ hsub₆ hs email he => ?_
    rw [hs.1] at he
    cases he
    refine ⟨user, (hend s fun s' h => absurd h (hs.2 s')).mono fun v hv => ?_, rfl⟩
    exact hsub₆ v (hsub₅ v hv)
  · next hkey =>
      refine sees_ret fun email he => ?_
      cases he
      exact ⟨user, hend _ fun _ _ => Bool.eq_false_of_not_eq_true hkey, rfl⟩

/-- What `POST /oidc/authorize` promises. -/
theorem sees_postAuthorize :
    Sees Op.Possible (LoginStep data (.endpoint (.authorize req reqData)))
      (postAuthorize data req reqData)
      (fun s tr' => (Request.authorize req reqData).Steps data s tr') [] :=
  sees_session (by simp [NoCodes]) (fun _ _ h => h) fun _ _ _ hs hno =>
    sees_mapErr (sees_authorize hs hno)

theorem sees_postAuthorizeRefresh {reqData : LoginRefreshRequest} :
    Sees Op.Possible (LoginStep data (.endpoint (.authorizeRefresh req reqData)))
      (postAuthorizeRefresh data req reqData)
      (fun s tr' => (Request.authorizeRefresh req reqData).Steps data s tr') [] := by
  refine sees_session (by simp [NoCodes]) (fun _ _ h => h) fun s tr₀ hauth hs hno => ?_
  have hparam : Sees Op.Possible QuietStep (validateAuthReqParam data req reqData.clientId
      reqData.redirectUri reqData.codeChallenge reqData.codeChallengeMethod) (fun _ _ => True) tr₀ := by
    refine sees_bind QuietStep.sees_findMaybeEphemeral fun client _ _ _ => ?_
    refine sees_bind sees_answer fun header _ _ _ => sees_bind sees_answer fun _ _ _ _ => ?_
    exact sees_bind sees_answer fun _ _ _ _ => sees_ret trivial
  refine sees_bind (sees_before hparam hno) fun c tr₁ hsub₁ h₁ => ?_
  obtain ⟨client, origin⟩ := c
  refine sees_bind sees_okOr fun uid tr₂ _ huid => ?_
  obtain ⟨rfl, huid⟩ := huid
  refine sees_bind (sees_before QuietStep.sees_findUser h₁.2) fun user tr₃ hsub₃ h₃ => ?_
  refine sees_bind (sees_before (QuietStep.sees_pure user.checkEnabled_touches) h₃.2)
    fun _ tr₄ hsub₄ h₄ => ?_
  refine sees_bind (sees_before (QuietStep.sees_pure user.checkExpired_touches) h₄.2)
    fun _ tr₅ hsub₅ h₅ => ?_
  refine sees_bind sees_answer fun _ tr₆ _ h₆ => ?_
  obtain ⟨rfl, -⟩ := h₆
  have hvouched : Vouched data user tr₆ (.authorizeRefresh req reqData) := by
    have hsub : ∀ v ∈ tr₃, v ∈ tr₆ := fun v hv => hsub₅ v (hsub₄ v hv)
    refine .session (hs.mono fun v hv => hsub v (hsub₃ v (hsub₁ v hv))) ?_ huid (h₃.1.mono hsub)
    exact List.mem_singleton.mp hauth
  have hs₆ : SessionOf req s tr₆ := hs.mono fun v hv =>
    hsub₅ v (hsub₄ v (hsub₃ v (hsub₁ v hv)))
  have hmet : MetAs user tr₆ := (h₃.1.read.mono fun v hv => hsub₅ v (hsub₄ v hv)).met
  refine sees_bind (F := fun _ tr' => CodesOf user.id tr' ∧ HasIssued user.id tr') ?_
    fun code tr₇ hsub₇ hcodes => ?_
  · refine sees_bind (sees_newCode h₅.2) fun code tr₇ hsub₇ h₇ => ?_
    exact sees_bind (sees_saveCode h₇.2 h₇.1.1 ⟨req, s, rfl, hs₆.mono hsub₇, h₇.1.2⟩
      (hvouched.mono hsub₇)) fun _ _ _ h => sees_ret h
  have hend : ∀ s, (∀ s', s = .loggedIn s' →
      (Request.authorizeRefresh req reqData).SkipsKey data user) →
      (Request.authorizeRefresh req reqData).GoesOnAs data s user tr₇ := fun s hskips =>
    ⟨hvouched.mono hsub₇, hcodes.2, hmet.mono hsub₇, hskips⟩
  split
  · refine sees_mono (sees_awaitWebauthn rfl hcodes.1) fun s tr₈ hsub₈ hs email he => ?_
    rw [hs.1] at he
    cases he
    exact ⟨user, (hend s fun s' h => absurd h (hs.2 s')).mono hsub₈, rfl⟩
  · next hkey =>
      refine sees_ret fun email he => ?_
      cases he
      refine ⟨user, hend _ fun _ _ => ?_, rfl⟩
      cases hrenew : data.sessionRenewMfa with
      | false => exact .inr ⟨hrenew, req, reqData, rfl⟩
      | true =>
          rw [hrenew, Bool.and_true] at hkey
          exact .inl (Bool.eq_false_of_not_eq_true hkey)

theorem sees_postProviderCallback {payload : ProviderCallbackRequest} :
    Sees Op.Possible (LoginStep data (.endpoint (.providerCallback req payload)))
      (postProviderCallback data req payload)
      (fun s tr' => (Request.providerCallback req payload).Steps data s tr') [] := by
  refine sees_session (by simp [NoCodes]) (fun _ _ h => h) fun session tr₀ _ hs hno => ?_
  refine sees_bind (sees_before (QuietStep.sees_pure (checkCallback_touches data req payload)) hno)
    fun slf tr₁ hsub₁ h₁ => ?_
  refine sees_bind (sees_before (QuietStep.sees_touches (authProviderFind_touches _) (by simp)
    (by simp [QuietSlots])) h₁.2) fun provider tr₂ hsub₂ h₂ => ?_
  have hexchange : Sees Op.Possible QuietStep
      (call (.exchangeUpstreamCode provider payload.code) answer : M ErrorResponse AuthProviderIdClaims)
      (fun c tr' => ⟨.exchangeUpstreamCode provider payload.code, .ok c⟩ ∈ tr') tr₂ := by
    refine sees_call (o := Op.exchangeUpstreamCode provider payload.code) (fun x _ =>
      QuietStep.of_pure (o := .exchangeUpstreamCode provider payload.code) trivial x) fun x _ => ?_
    refine sees_mono sees_answer fun c tr' _ h => ?_
    obtain ⟨rfl, rfl⟩ := h
    exact List.mem_cons_self
  refine sees_bind (sees_before hexchange h₂.2) fun claims tr₃ hsub₃ h₃ => ?_
  refine sees_bind (sees_before QuietStep.sees_validateUpdateUser h₃.2) fun c tr₄ hsub₄ h₄ => ?_
  obtain ⟨user, mfa⟩ := c
  obtain ⟨⟨⟨uid, huid, hlink⟩, hmet⟩, hno₄⟩ := h₄
  have hvouched : Vouched data user tr₄ (.providerCallback req payload) :=
    .upstream (hsub₄ _ h₃.1) huid hlink
  refine sees_bind (sees_before (QuietStep.sees_pure user.checkEnabled_touches) hno₄)
    fun _ tr₅ hsub₅ h₅ => ?_
  refine sees_bind (sees_before (QuietStep.sees_pure user.checkExpired_touches) h₅.2)
    fun _ tr₆ hsub₆ h₆ => ?_
  split
  · exact sees_ret fun email he => by cases he
  -- the account has not been linked only: the login goes on with a code
  refine sees_bind (sees_before QuietStep.sees_findMaybeEphemeral h₆.2) fun client tr₇ hsub₇ h₇ => ?_
  have hs₇ : SessionOf req session tr₇ := hs.mono fun v hv =>
    hsub₇ v (hsub₆ v (hsub₅ v (hsub₄ v (hsub₃ v (hsub₂ v (hsub₁ v hv))))))
  have hforce : Sees Op.Possible QuietStep
      (forceMfaSession (client.forceMfaOf data) user mfa session) (fun s _ => s.id = session.id)
      tr₇ := by
    unfold forceMfaSession
    split
    · refine sees_bind sees_throwIf fun _ tr₈ _ h₈ => ?_
      obtain ⟨rfl, -⟩ := h₈
      refine sees_mono (QuietStep.sees_setMfa hs₇.copied) fun s tr₉ _ hs => ?_
      rw [hs]
    · exact sees_ret rfl
  refine sees_bind (sees_before hforce h₇.2) fun session' tr₈ hsub₈ h₈ => ?_
  refine sees_bind sees_answer fun _ tr₉ _ h₉ => ?_
  obtain ⟨rfl, -⟩ := h₉
  refine sees_bind sees_answer fun _ tr₉ _ h₉ => ?_
  obtain ⟨rfl, -⟩ := h₉
  refine sees_bind sees_answer fun origin tr₉ _ h₉ => ?_
  obtain ⟨rfl, -⟩ := h₉
  have hend : Vouched data user tr₉ (.providerCallback req payload) := hvouched.mono fun v hv =>
    hsub₈ v (hsub₇ v (hsub₆ v (hsub₅ v hv)))
  have hmet₉ : MetAs user tr₉ := hmet.mono fun v hv => hsub₈ v (hsub₇ v (hsub₆ v (hsub₅ v hv)))
  refine sees_bind (sees_newCode h₈.2) fun code tr₁₀ hsub₁₀ h₁₀ => ?_
  have hsession : OfSession (.providerCallback req payload) code tr₁₀ :=
    ⟨req, session, rfl, hs₇.mono fun v hv => hsub₁₀ v (hsub₈ v hv), h₁₀.1.2.trans (by rw [h₈.1])⟩
  refine sees_bind (sees_saveCode h₁₀.2 h₁₀.1.1 hsession (hend.mono hsub₁₀))
    fun _ tr₁₁ hsub₁₁ hcodes => ?_
  have hlate : ∀ v ∈ tr₉, v ∈ tr₁₁ := fun v hv => hsub₁₁ v (hsub₁₀ v hv)
  have hgoes : ∀ s, (∀ s', s = .loggedIn s' → user.hasWebauthnEnabled = false) →
      (Request.providerCallback req payload).GoesOnAs data s user tr₁₁ := fun s hskips =>
    ⟨hend.mono hlate, hcodes.2, hmet₉.mono hlate, fun s' he => .inl (hskips s' he)⟩
  split
  · refine sees_mono (sees_awaitWebauthn rfl hcodes.1) fun s tr₁₂ hsub₁₂ hs email he => ?_
    rw [hs.1] at he
    cases he
    exact ⟨user, (hgoes s fun s' h => absurd h (hs.2 s')).mono hsub₁₂, rfl⟩
  · next hkey =>
      refine sees_ret fun email he => ?_
      cases he
      exact ⟨user, hgoes _ fun _ _ => Bool.eq_false_of_not_eq_true hkey, rfl⟩

end Logins

/-! Ceremonies -/

theorem sees_postWebauthnAuthStart {id : String} {purpose : MfaPurpose} :
    Sees Op.Possible (LoginStep data (.endpoint (.authStart req id purpose)))
      (postWebauthnAuthStart data req id purpose) (fun _ _ => True) [] := by
  -- whatever is stored, it is among the data of the ceremonies
  have hsave : ∀ (ok : Bool) (code : String) (b : Bytes) tr,
      (ok = true → StoresData data tr (.endpoint (.authStart req id purpose)) (.bytes b)) →
      Sees Op.Possible (LoginStep data (.endpoint (.authStart req id purpose))) (saveData ok code b)
        (fun _ _ => True) tr := by
    intro ok code b tr hstores
    refine sees_bind sees_throwIf fun _ tr₁ _ h => ?_
    obtain ⟨rfl, hok⟩ := h
    refine sees_mono (sees_cachePut fun x => ⟨?_, ?_, ?_, ?_, ?_⟩) fun _ _ _ _ => trivial
    · rintro k v ⟨⟩
    · rintro k v he
      cases he
      exact hstores (Bool.eq_true_of_not_eq_false hok)
    · rintro k ls ⟨⟩
    · rintro s' hw -
      cases hw
    · rintro ss p f ⟨⟩
  have hnew : ∀ tr, Sees Op.Possible (LoginStep data (.endpoint (.authStart req id purpose)))
      (addDataFor.newService id) (fun _ _ => True) tr := fun tr => by
    refine sees_bind (F := fun _ _ => True) ?_ fun d _ _ _ => ?_
    · exact sees_bind (sees_of_quiet (QuietStep.sees_pure (touches_getRand 48))) fun _ _ _ _ =>
        sees_ret trivial
    · exact sees_bind (hsave _ _ _ _ .service) fun _ _ _ _ => sees_ret trivial
  refine sees_bind (sees_of_quiet (sees_getPrincipal QuietStep.allowsSessions)) fun p _ _ _ => ?_
  refine sees_bind sees_answer fun _ tr₁ _ _ => ?_
  refine sees_bind (F := fun _ _ => True) ?_ fun addData tr₂ _ _ => ?_
  · cases purpose with
    | login code =>
        exact sees_bind (sees_of_quiet QuietStep.sees_findData) fun d _ _ _ => sees_ret trivial
    | passwordNew => exact hnew tr₁
    | passwordReset => exact hnew tr₁
    | test => exact sees_ret trivial
  refine sees_bind (sees_of_quiet QuietStep.sees_findUser) fun user tr₃ _ huser => ?_
  refine sees_bind (sees_of_quiet QuietStep.sees_passkeysFor) fun pks tr₄ hsub₄ hpks => ?_
  refine sees_bind sees_throwIf fun _ tr₅ _ h₅ => ?_
  obtain ⟨rfl, -⟩ := h₅
  have hstart : Sees Op.Possible QuietStep
      (startPasskeyAuthentication (pks.map PasskeyEntity.passkey)) (fun r _ => ∀ st, r = .ok st →
        st.credentials = pks.map fun pk => pk.passkey.credId) tr₅ := by
    refine sees_call (o := Op.startPasskeyAuthentication _) (fun x _ =>
      QuietStep.of_pure (o := .startPasskeyAuthentication _) trivial x) fun x hx => sees_ret ?_
    rintro st rfl
    rw [possible_start hx, List.map_map]
    rfl
  refine sees_bind (sees_of_quiet hstart) fun r tr₆ hsub₆ hr => ?_
  rcases r with msg | st
  · exact sees_fail
  have hdelete : Touches [] [] addData.delete := by
    cases addData with
    | login d => exact touches_cacheDel _ _
    | service d => exact touches_ret _
    | test => exact touches_ret _
  refine sees_bind (sees_of_quiet (QuietStep.sees_pure hdelete)) fun _ tr₇ hsub₇ _ => ?_
  refine sees_bind (sees_of_quiet (QuietStep.sees_pure (touches_getRand 48))) fun code tr₈ hsub₈ _ => ?_
  have hlate : ∀ v ∈ tr₅, v ∈ tr₈ := fun v hv => hsub₈ v (hsub₇ v (hsub₆ v hv))
  refine sees_bind (hsave _ _ _ _ fun hfits => ?_) fun _ _ _ _ => sees_ret trivial
  obtain ⟨v, hv, hread⟩ := hpks
  exact .ceremony hfits (huser.read.mono fun v hv => hlate v (hsub₄ v hv)) ⟨v, hlate v hv, hread⟩
    (hr st rfl) rfl

/-! Token requests -/

/-- The session of a code becomes one of the user that was found for it. -/
theorem sees_updateCodeSession {code : AuthCode} {user : User}
    (hcode : ∃ idx, ⟨.cacheGet .authCodes idx, .ok (some (.authCode code))⟩ ∈ tr)
    (huser : FindsUser code.userId user tr) :
    Sees Op.Possible (LoginStep data q) (updateCodeSession code user) (fun _ _ => True) tr := by
  unfold updateCodeSession
  split
  · exact sees_ret trivial
  · next sid hsid =>
      have hexpiry : ∀ (s : Session) tr, Sees Op.Possible QuietStep (s.validateUserExpiry user)
          (fun s' _ => s'.id = s.id) tr := fun s tr => by
        unfold Session.validateUserExpiry
        split
        · exact sees_ret rfl
        · refine sees_bind (QuietStep.sees_pure touches_unixTimestamp) fun now _ _ _ => ?_
          split
          · exact sees_fail
          · split <;> exact sees_ret rfl
      refine sees_bind (sees_of_quiet (Session.sees_find QuietStep.allowsSessions))
        fun s₀ tr₁ hsub₁ hs₀ => ?_
      refine sees_bind (sees_of_quiet (QuietStep.sees_pure touches_unixTimestamp))
        fun now tr₂ hsub₂ _ => ?_
      refine sees_bind (sees_tried (sees_of_quiet (hexpiry _ tr₂))) fun r tr₃ hsub₃ hr => ?_
      rcases r with e | s₁
      · exact sees_bind (sees_of_quiet (QuietStep.sees_pure (touches_cacheDel _ _)))
          fun _ _ _ _ => sees_fail
      refine sees_bind (sees_of_quiet (hexpiry s₁ tr₃)) fun s₂ tr₄ hsub₄ hs₂ => ?_
      have hredeems : RedeemsCode tr₄ { s₂ with
          userId := some user.id, roles := some user.roles, groups := user.groups } := by
        obtain ⟨idx, hmem⟩ := hcode
        obtain ⟨v, hv, hread⟩ := hs₀
        have hsub : ∀ v ∈ tr₁, v ∈ tr₄ := fun v hv => hsub₄ v (hsub₃ v (hsub₂ v hv))
        refine ⟨idx, code, sid, s₀, user, hsub _ (hsub₁ _ hmem), hsid, ⟨v, hsub v hv, hread⟩, ?_,
          huser.mono fun v hv => hsub v (hsub₁ v hv), rfl⟩
        exact hs₂.trans (hr s₁ rfl)
      refine sees_bind (sees_execute fun x => ⟨?_, ?_, ?_, ?_, ?_⟩) fun _ tr₅ hsub₅ _ => ?_
      · rintro k v ⟨⟩
      · rintro k v ⟨⟩
      · rintro k ls ⟨⟩
      · rintro s' hw -
        cases hw with
        | insert h => simp at h
        | upsert h =>
            rw [show s' = _ by simpa using h]
            exact .inr hredeems
      · rintro ss p f he hmem
        cases he
        simp at hmem
      · refine sees_mono (sees_cachePut fun x => ⟨?_, ?_, ?_, ?_, ?_⟩) fun _ _ _ _ => trivial
        · rintro k v ⟨⟩
        · rintro k v ⟨⟩
        · rintro k ls ⟨⟩
        · rintro s' hw -
          cases hw
          exact .inr (hredeems.mono hsub₅)
        · rintro ss p f ⟨⟩

theorem sees_grantTypeCode :
    Sees Op.Possible (LoginStep data q) (grantTypeCode data req reqData)
      (fun c tr' => TokenEnds data (.ok c.1) tr') tr := by
  refine sees_bind sees_okOr fun idx _ _ _ => sees_bind sees_answer fun c _ _ _ => ?_
  obtain ⟨clientId, clientSecret⟩ := c
  refine sees_bind (sees_of_quiet (QuietStep.sees_touches
    (codeClient_touches data req clientId clientSecret) (by simp) (by simp [QuietSlots])))
    fun c tr₁ _ _ => ?_
  obtain ⟨client, fingerprint, headers⟩ := c
  refine sees_bind (sees_cacheGet fun x =>
    (QuietStep.of_pure (o := .cacheGet .authCodes idx) trivial x).login) fun found tr₂ _ hfound => ?_
  refine sees_bind sees_okOr fun code tr₃ _ hcode => ?_
  obtain ⟨rfl, rfl⟩ := hcode
  obtain ⟨y, rfl, ⟨h, -⟩ | ⟨v, a, h, rfl, ha⟩⟩ := hfound
  · cases h
  cases h
  rw [CacheVal.authCode?_eq_some] at ha
  subst ha
  refine sees_bind (sees_of_quiet (QuietStep.sees_pure (checkCode_touches _ _ _ _)))
    fun _ tr₄ hsub₄ _ => ?_
  refine sees_bind (sees_of_quiet QuietStep.sees_findUser) fun user tr₅ hsub₅ huser => ?_
  refine sees_bind (sees_of_quiet QuietStep.sees_fromUser) fun ts tr₆ hsub₆ hts => ?_
  have hends : TokenEnds data (.ok ts) tr₆ := by
    rintro _ ⟨⟩
    exact .inr ⟨idx, _, user, hsub₆ _ (hsub₅ _ (hsub₄ _ List.mem_cons_self)), huser.mono hsub₆, hts⟩
  refine sees_bind (sees_updateCodeSession ⟨idx, ?_⟩ (huser.mono hsub₆)) fun _ tr₇ hsub₇ _ => ?_
  · exact hsub₆ _ (hsub₅ _ (hsub₄ _ List.mem_cons_self))
  refine sees_bind (sees_of_quiet (QuietStep.sees_pure (touches_cacheDel _ _)))
    fun _ tr₈ hsub₈ _ => ?_
  refine sees_bind (sees_of_quiet QuietStep.sees_updateUsed) fun _ tr₉ hsub₉ _ => sees_ret ?_
  exact hends.mono fun v hv => hsub₉ v (hsub₈ v (hsub₇ v hv))

theorem sees_postToken :
    Sees Op.Possible (LoginStep data q) (postToken data req reqData)
      (fun a tr' => TokenEnds data a tr') tr := by
  unfold postToken
  split
  · exact sees_mono (sees_of_quiet QuietStep.sees_grantTypeDeviceCode) fun a _ _ h ts hts =>
      .inl (h ts hts)
  have hpwd : ∀ {p : M ErrorResponse (TokenSet × Headers)},
      Sees Op.Possible QuietStep p (fun c _ => SignedWith data "pwd" c.1) tr →
      Sees Op.Possible (LoginStep data q) p (fun c tr' => TokenEnds data (.ok c.1) tr') tr := by
    intro p hp
    refine sees_mono (sees_of_quiet hp) fun c tr' _ h => ?_
    rintro _ ⟨⟩
    exact .inl h
  refine sees_bind (F := fun c tr' => TokenEnds data (.ok c.1) tr') ?_ fun c _ _ h => sees_ret h
  unfold getTokenSet
  split
  · exact sees_grantTypeCode
  split
  · exact hpwd QuietStep.sees_grantTypeCredentials
  split
  · exact hpwd QuietStep.sees_grantTypePassword
  split
  · exact hpwd QuietStep.sees_grantTypeRefresh
  · exact sees_fail

/-! All requests -/

theorem sees_mfaCookieFor {p : Request} {a : Answer} :
    Sees Op.Possible QuietStep (mfaCookieFor data pages p a) (fun c _ => CookieOfStep pages a c)
      tr := by
  unfold mfaCookieFor
  split
  · next req s _ =>
      refine sees_bind (F := fun c _ => CookieOfStep pages (.step s) c.1.mfaCookie) (sees_mapErr ?_)
        fun c _ _ hc => sees_ret hc
      cases s with
      | loggedIn res => exact sees_ret fun v h => by cases h
      | providerLink => exact sees_ret fun v h => by cases h
      | awaitWebauthn res =>
          have hbuild : ∀ tr, Sees Op.Possible QuietStep
              (mapErr (·, true) (answer (pages.buildMfaCookie res.email)) :
                M (ErrorResponse × Bool) String)
              (fun v _ => pages.buildMfaCookie res.email = .ok v) tr := fun tr =>
            sees_mapErr (sees_mono sees_answer fun v _ _ h => h.2)
          have hparse := WebauthnCookie.parseValidate_touches data req.mfaCookie
          refine sees_bind (F := fun c _ => CookieOfStep pages (.step (.awaitWebauthn res)) c) ?_
            fun c _ _ hc => sees_ret hc
          refine sees_bind (QuietStep.sees_pure (touches_attempt hparse)) fun r _ _ _ => ?_
          have hnew : ∀ tr, Sees Op.Possible QuietStep
              (do let cookie ← mapErr (·, true) (answer (pages.buildMfaCookie res.email)); return some cookie :
                M (ErrorResponse × Bool) (Option String))
              (fun c _ => CookieOfStep pages (.step (.awaitWebauthn res)) c) tr := fun tr => by
            refine sees_bind (hbuild tr) fun v _ _ hv => sees_ret ?_
            rintro _ ⟨⟩
            exact ⟨res, rfl, hv⟩
          rcases r with e | c
          · exact hnew _
          · dsimp only
            split
            · exact hnew _
            · exact sees_ret fun v h => by cases h
  · exact sees_ret fun v h => by cases h

theorem sees_request {p : Request} :
    Sees Op.Possible (LoginStep data (.endpoint p)) (p.prog data) (fun a tr' => p.Ends data a tr')
      [] := by
  have hstep : ∀ {s : AuthStep} {tr' : List (Seen Op Op.Res)} {p : Request},
      p.Steps data s tr' → p.Ends data (.step s) tr' := fun h =>
    ⟨fun s he => by cases he; exact h, fun a he => (by cases he), fun d he => by cases he⟩
  have hother : ∀ {a : Answer} {tr' : List (Seen Op Op.Res)} {p : Request}, (∀ s, a ≠ .step s) →
      (∀ a', a ≠ .token a') → (∀ d, a ≠ .authFinished d) → p.Ends data a tr' := fun hs ha hd =>
    ⟨fun s he => absurd he (hs s), fun a' he => absurd he (ha a'), fun d he => absurd he (hd d)⟩
  cases p with
  | authorize req reqData => exact sees_bind sees_postAuthorize fun s _ _ h => sees_ret (hstep h)
  | authorizeRefresh req reqData =>
      exact sees_bind sees_postAuthorizeRefresh fun s _ _ h => sees_ret (hstep h)
  | providerCallback req payload =>
      exact sees_bind sees_postProviderCallback fun s _ _ h => sees_ret (hstep h)
  | authFinish id req =>
      refine sees_bind (sees_of_quiet QuietStep.sees_authFinish) fun d _ _ h => sees_ret ?_
      obtain ⟨wd, hwd, hfinished⟩ := h
      refine ⟨fun s he => (by cases he), fun a he => (by cases he), ?_⟩
      rintro _ ⟨⟩
      exact ⟨id, req, wd, rfl, hwd, hfinished⟩
  | newSession req =>
      exact sees_bind (sees_of_quiet QuietStep.sees_newSession) fun _ _ _ _ =>
        sees_ret (hother (by simp) (by simp) (by simp))
  | token req reqData =>
      refine sees_bind sees_postToken fun a _ _ h => sees_ret ⟨fun s he => (by cases he), ?_,
        fun d he => by cases he⟩
      rintro _ ⟨⟩
      exact h
  | authStart req id purpose =>
      exact sees_bind sees_postWebauthnAuthStart fun _ _ _ _ =>
        sees_ret (hother (by simp) (by simp) (by simp))
  | regStart id passkeyName =>
      exact sees_bind (sees_of_quiet QuietStep.sees_regStart) fun _ _ _ _ =>
        sees_ret (hother (by simp) (by simp) (by simp))
  | regFinish id passkeyName cred =>
      exact sees_bind (sees_of_quiet QuietStep.sees_regFinish) fun _ _ _ _ =>
        sees_ret (hother (by simp) (by simp) (by simp))
  | userSelf req id upd =>
      refine sees_bind (sees_of_quiet QuietStep.sees_putUserSelf) fun c _ _ _ => ?_
      exact sees_ret (hother (by simp) (by simp) (by simp))
  | passwordReset req id reqData =>
      exact sees_bind (sees_of_quiet QuietStep.sees_passwordReset) fun _ _ _ _ =>
        sees_ret (hother (by simp) (by simp) (by simp))
  | admin req =>
      exact sees_bind (sees_of_quiet QuietStep.sees_adminAccess) fun _ _ _ _ =>
        sees_ret (hother (by simp) (by simp) (by simp))

end LoginStep

/-- **What every call promises.** -/
theorem sees_loginCall (q : LoginCall) :
    Sees Op.Possible (LoginStep data q) (q.prog data pages)
      (fun r tr' => LoginEnds data pages q r tr') [] := by
  cases q with
  | endpoint p =>
      refine sees_bind LoginStep.sees_request fun a tr₁ _ ha => ?_
      refine sees_bind (LoginStep.sees_of_quiet LoginStep.sees_mfaCookieFor) fun c tr₂ hsub hc => ?_
      exact sees_ret ⟨ha.mono hsub, hc⟩
  | other p h =>
      exact sees_bind (LoginStep.sees_of_quiet h) fun _ _ _ _ => sees_ret ⟨rfl, rfl⟩

/-! ### Runs -/

/-- What is cached was there at the beginning, or it has been put there. -/
def PutBefore {Q A : Type} (w₀ w : World) (l : Log Q Op Op.Res A) : Prop :=
  ∀ c k v, w.cache c k = some v → w₀.cache c k = some v ∨ ∃ t x, .op t (.cachePut c k v) x ∈ l

section Runs

variable {Q α : Type} {prog : Q → M ErrorResponse α}
  {C : World → Log Q Op Op.Res (Except (Fault ErrorResponse) α) →
    Event Q Op Op.Res (Except (Fault ErrorResponse) α) → Prop}
  {w₀ : World} {P : Pool Q Op Op.Res World (Fault ErrorResponse) α}

theorem Run.putBefore (h : Run prog sem C (init w₀) P) : PutBefore w₀ P.world P.log := by
  induction h with
  | refl => exact fun c k v hv => .inl hv
  | @step P P' e hrun hs _ ih =>
      have hkeep : ∀ e', PutBefore w₀ P.world (e' :: P.log) := fun e' c k v hv => by
        rcases ih c k v hv with h | ⟨t, x, hmem⟩
        · exact .inl h
        · exact .inr ⟨t, x, List.mem_cons_of_mem _ hmem⟩
      cases hs with
      | start q ht => exact hkeep _
      | ret ht => exact hkeep _
      | fail ht => exact hkeep _
      | op ht hx =>
          intro c k v hv
          rcases sem_cache hx hv with hold | rfl
          · exact hkeep _ c k v hold
          · exact .inr ⟨_, _, List.mem_cons_self⟩

/-- What is found was there at the beginning, or it has been put there before. -/
theorem Run.found_put (h : Run prog sem C (init w₀) P) {t : ℕ} {c : CacheName} {k : String}
    {v : CacheVal} (hget : .op t (.cacheGet c k) (.ok (some v)) ∈ P.log) :
    w₀.cache c k = some v ∨ ∃ t' x, .op t' (.cachePut c k v) x ∈ P.log := by
  obtain ⟨l₂, l₁, hl⟩ := List.append_of_mem hget
  obtain ⟨w, w', hI, -, -, hop⟩ := (Run.past (fun P hP => Run.putBefore hP) h).of_suffix ⟨l₂, hl.symm⟩
  obtain ⟨hx, -⟩ := hop t _ _ rfl
  have hw : w.cache c k = some v := by
    rcases sem_cacheGet.mp hx with ⟨h, -⟩ | ⟨h, -⟩ | ⟨e, h, -⟩
    · exact (Except.ok.inj h).symm
    · cases h
    · cases h
  rcases hI c k v hw with h | ⟨t', x, hmem⟩
  · exact .inl h
  · refine .inr ⟨t', x, ?_⟩
    rw [hl]
    simp [hmem]

end Runs

/-- An event of a run, with what its request has promised and the condition of the run. -/
structure Happened (data : AppState) (pages : LoginPages)
    (C : World → LoginRunLog → LoginRunEvent → Prop) (l : LoginRunLog) (e : LoginRunEvent) : Prop where
  cond : ∃ w, C w l e
  possible : ∀ t o x, e = .op t o x → o.Possible x
  step : ∀ t o x, e = .op t o x → ∃ q, .start t q ∈ l ∧ LoginStep data q (seenBy t l) ⟨o, x⟩
  ends : ∀ t r, e = .done t (.ok r) → ∃ q, .start t q ∈ l ∧ LoginEnds data pages q r (seenBy t l)

/-- **Every event of a run**, with the log before it. -/
theorem Run.happened_at {w₀ : World} {P : LoginRunPool}
    (h : Run (LoginCall.prog data pages) sem C (init w₀) P) {e : LoginRunEvent} {l₂ l : LoginRunLog}
    (hl : P.log = l₂ ++ e :: l) : Happened data pages C l e := by
  obtain ⟨w, w', -, hC, -, hop⟩ :=
    (Run.past (I := fun _ _ => True) (fun _ _ => trivial) h).of_suffix ⟨l₂, hl.symm⟩
  obtain ⟨hstep, hdone⟩ := (Run.promises (A := fun _ => Op.Possible) (G := LoginStep data)
    (F := fun q r tr => ∀ b, r = .ok b → LoginEnds data pages q b tr) sees_loginCall
    (fun w _ _ _ _ _ w' _ hx _ => ⟨w, w', hx⟩) h).of_suffix ⟨l₂, hl.symm⟩
  refine ⟨⟨w, hC⟩, fun t o x he => ⟨w, w', (hop t o x he).1⟩, hstep, ?_⟩
  intro t r he
  obtain ⟨q, hq, hends⟩ := hdone t _ he
  exact ⟨q, hq, hends r rfl⟩

theorem Run.happened {w₀ : World} {P : LoginRunPool}
    (h : Run (LoginCall.prog data pages) sem C (init w₀) P) {e : LoginRunEvent} (he : e ∈ P.log) :
    ∃ l, (∀ e' ∈ l, e' ∈ P.log) ∧ Happened data pages C l e := by
  obtain ⟨l₂, l, hl⟩ := List.append_of_mem he
  refine ⟨l, fun e' he' => ?_, Run.happened_at h hl⟩
  rw [hl]
  simp [he']

end Rauthy
