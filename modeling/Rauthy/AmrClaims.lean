/-
Rauthy/AmrClaims.lean

What an id token says about the method of authentication.  The token says mfa if its user has a
passkey when the code is redeemed; nothing of the login that the code was issued for is kept.

A code leads back to one login, and if that login has asked for a passkey, the code was handed out
by the end of its ceremony only.

Main results:
  * `mfa_tokens_released`: an id token that says mfa is one for a code that a ceremony of its user
    has released, in every run in which codes are secret until they are handed out, and redeemed
    for users with a passkey only if the login has asked for it;
  * `mfa_without_ceremony`: a session that is renewed gets such a token without any ceremony.
-/
import Rauthy.Ceremonies

namespace Rauthy

open Prog Pool Bincode

variable {l : LoginRunLog}

/-! ### What is claimed -/

/-- Different claims are signed to different id tokens. -/
def IdTokensReadable (data : AppState) : Prop :=
  ∀ kp kp' c c' token, data.signJwt kp (.id c) = .ok token →
    data.signJwt kp' (.id c') = .ok token → c = c'

/-- Request `t` is answered with an id token that says mfa. -/
def IssuesMfa (data : AppState) (t : ℕ) (l : LoginRunLog) : Prop :=
  ∃ r ts token kp claims, .done t (.ok r) ∈ l ∧ r.answer = some (.token (.ok ts)) ∧
    ts.idToken = some token ∧ data.signJwt kp (.id claims) = .ok token ∧ "mfa" ∈ claims.custom.amr

/-- Request `t` has found the code. -/
def FindsCode (t : ℕ) (idx : String) (code : AuthCode) (l : LoginRunLog) : Prop :=
  .op t (.cacheGet .authCodes idx) (.ok (some (.authCode code))) ∈ l

/-- Request `t` has created the code. -/
def CreatesCode (t : ℕ) (idx : String) (code : AuthCode) (l : LoginRunLog) : Prop :=
  ∃ x, .op t (.cachePut .authCodes idx (.authCode code)) x ∈ l

/-- Request `t` waits for the ceremony of this login. -/
def AsksCeremony (t : ℕ) (d : WebauthnLoginReq) (l : LoginRunLog) : Prop :=
  d.Fits = true ∧ ∃ k x, .op t (.cachePut .webauthnData k (.bytes d.encode)) x ∈ l

/-- Request `t` has been answered with the redirect of a login that needs no ceremony. -/
def LogsIn (t : ℕ) (l : LoginRunLog) : Prop :=
  ∃ r s, .done t (.ok r) ∈ l ∧ r.answer = some (.step (.loggedIn s))

/-- A code is presented after the location that holds it has been handed out. -/
def CodesHandedOut (l : LoginRunLog) (e : LoginRunEvent) : Prop :=
  ∀ t idx code, e = .op t (.cacheGet .authCodes idx) (.ok (some (.authCode code))) →
    ∃ t₀, CreatesCode t₀ idx code l ∧
      (LogsIn t₀ l ∨ ∃ d t', AsksCeremony t₀ d l ∧ ReleasesLogin t' d l)

/-- The login has met its user with a passkey, and it asks for it. -/
def AsksForKey (data : AppState) (t₀ : ℕ) (uid : String) (l : LoginRunLog) : Prop :=
  (∀ u₀, MetAs u₀ (seenBy t₀ l) → u₀.id = uid → u₀.hasWebauthnEnabled = true) ∧
    ∀ req reqData, .start t₀ (.endpoint (.authorizeRefresh req reqData)) ∈ l →
      data.sessionRenewMfa = true

/-- A code is redeemed for a user with a passkey only if the login has asked for one. -/
def KeysAsked (data : AppState) (l : LoginRunLog) (e : LoginRunEvent) : Prop :=
  ∀ t r idx code u t₀, e = .done t (.ok r) → FindsCode t idx code l →
    FindsUser code.userId u (seenBy t l) → u.hasWebauthnEnabled = true →
    CreatesCode t₀ idx code l → AsksForKey data t₀ code.userId l

/-- The code that request `t` has found was released by a finished ceremony of its user. -/
def RedeemsReleased (data : AppState) (t : ℕ) (l : LoginRunLog) : Prop :=
  ∃ idx code t₀ d t', FindsCode t idx code l ∧ CreatesCode t₀ idx code l ∧ AsksCeremony t₀ d l ∧
    d.userId = code.userId ∧ ReleasesLogin t' d l ∧ ReleasedByOwner data t' d l

/-! ### One login for each code -/

theorem mem_past {α : Type} {e e' : α} {l : List α} (h : e ∈ l) (h' : e' ∈ l) :
    e = e' ∨ (∃ l₂ l₁, l = l₂ ++ e :: l₁ ∧ e' ∈ l₁) ∨ ∃ l₂ l₁, l = l₂ ++ e' :: l₁ ∧ e ∈ l₁ := by
  obtain ⟨l₂, l₁, rfl⟩ := List.append_of_mem h
  rcases List.mem_append.mp h' with hlate | hmem
  · obtain ⟨m₂, m₁, rfl⟩ := List.append_of_mem hlate
    refine .inr (.inr ⟨m₂, m₁ ++ e :: l₁, ?_, ?_⟩)
    · simp
    · simp
  · rcases List.mem_cons.mp hmem with rfl | hearly
    · exact .inl rfl
    · exact .inr (.inl ⟨l₂, l₁, rfl, hearly⟩)

section Runs

variable {data : AppState} {pages : LoginPages} {C : World → LoginRunLog → LoginRunEvent → Prop}
  {w₀ : World} {P : LoginRunPool}
  {t : ℕ} {idx : String} {code : AuthCode}

/-- When a code is created, its request has stored neither a code nor data of a ceremony. -/
theorem Run.first_code (h : Run (LoginCall.prog data pages) sem C (init w₀) P) {v : CacheVal}
    {x : Except ErrorResponse Unit} {l₂ : LoginRunLog}
    (hl : P.log = l₂ ++ .op t (.cachePut .authCodes idx v) x :: l) {c : CacheName} {k : String}
    {v' : CacheVal} {x' : Except ErrorResponse Unit} (hc : c = .authCodes ∨ c = .webauthnData) :
    .op t (.cachePut c k v') x' ∉ l := by
  intro hmem
  obtain ⟨q, -, hstep⟩ := (Run.happened_at h hl).step t _ _ rfl
  have hno := (hstep.codes _ _ rfl).1 _ (mem_seenBy.mpr hmem)
  rcases hc with rfl | rfl
  · exact absurd (by simp) hno
  · exact absurd (by simp) hno

theorem Run.creates_one (h : Run (LoginCall.prog data pages) sem C (init w₀) P) {idx' : String}
    {code' : AuthCode} (hc : CreatesCode t idx code P.log) (hc' : CreatesCode t idx' code' P.log) :
    code = code' := by
  obtain ⟨x, hput⟩ := hc
  obtain ⟨x', hput'⟩ := hc'
  rcases mem_past hput hput' with heq | ⟨l₂, l, hl, hearly⟩ | ⟨l₂, l, hl, hearly⟩
  · cases heq
    rfl
  · exact absurd hearly (Run.first_code h hl (.inl rfl))
  · exact absurd hearly (Run.first_code h hl (.inl rfl))

/-- The ceremony that a login asks for is one of the user of its code. -/
theorem Run.asks_owner (h : Run (LoginCall.prog data pages) sem C (init w₀) P)
    {d : WebauthnLoginReq} (hc : CreatesCode t idx code P.log) (hd : AsksCeremony t d P.log) :
    d.userId = code.userId := by
  obtain ⟨x, hput⟩ := hc
  obtain ⟨hfits, k, x', hstore⟩ := hd
  rcases mem_past hput hstore with heq | ⟨l₂, l, hl, hearly⟩ | ⟨l₂, l, hl, hearly⟩
  · cases heq
  · exact absurd hearly (Run.first_code h hl (.inr rfl))
  -- the code was there when the login was stored
  obtain ⟨q, hq, hstep⟩ := (Run.happened_at h hl).step t _ _ rfl
  obtain ⟨l', hsub', hl'⟩ := Run.happened h hput
  obtain ⟨q', hq', hstep'⟩ := hl'.step t _ _ rfl
  obtain ⟨-, r, c, u, rfl, -, -, -, hvouched⟩ := hstep'.codes _ _ rfl
  have hmem : .start t q ∈ P.log := by
    rw [hl]
    simp [hq]
  obtain rfl := h.start_unique hmem (hsub' _ hq')
  have hstores := hstep.data _ _ rfl
  generalize hb : CacheVal.bytes d.encode = v at hstores
  cases hstores with
  | @login q d' _ hfits' hloc hcodes =>
      have hdec := WebauthnLoginReq.decode_encode hfits []
      have hdec' := WebauthnLoginReq.decode_encode hfits' []
      rw [List.append_nil, CacheVal.bytes.inj hb] at hdec
      rw [List.append_nil, hdec] at hdec'
      obtain rfl : d = d' := (Prod.mk.inj (Option.some.inj hdec')).1
      exact (hcodes _ (mem_seenBy.mpr hearly) _ _ rfl).symm
  | service _ => cases hvouched
  | ceremony _ _ _ _ _ => cases hvouched

/-- A login that has been answered without a ceremony has asked its user for no passkey. -/
theorem Run.logsIn_skips (h : Run (LoginCall.prog data pages) sem C (init w₀) P) {l₂ : LoginRunLog}
    (hl : P.log = l₂ ++ l) (hc : CreatesCode t idx code P.log) (hin : LogsIn t l) :
    ¬ AsksForKey data t code.userId l := by
  rintro ⟨hkey, hrenew⟩
  obtain ⟨r, s, hdone, hanswer⟩ := hin
  obtain ⟨m₂, m, rfl⟩ := List.append_of_mem hdone
  have hm : P.log = (l₂ ++ m₂) ++ .done t (.ok r) :: m := by
    rw [hl, List.append_assoc]
  have hgrow : ∀ e ∈ m, e ∈ m₂ ++ .done t (.ok r) :: m := fun e he => by simp [he]
  obtain ⟨q, hq, hends⟩ := (Run.happened_at h hm).ends t r rfl
  cases q with
  | other p hp =>
      rw [LoginEnds, hanswer] at hends
      cases hends.1
  | endpoint p =>
      simp only [LoginEnds, hanswer] at hends
      obtain ⟨u, hgoes, -⟩ := hends.1.steps _ rfl s.email rfl
      -- the user is the one of the code
      obtain ⟨k, code', x, hput, hid⟩ := hgoes.issued
      have hput' : CreatesCode t k code' P.log := by
        refine ⟨x, ?_⟩
        rw [hl]
        exact List.mem_append_right _ (hgrow _ (mem_of_seenBy hput))
      obtain rfl := Run.creates_one h hc hput'
      have hmet := hgoes.met.mono fun v hv => mem_seenBy.mpr (hgrow _ (mem_of_seenBy hv))
      rcases hgoes.skips s rfl with hnone | ⟨hoff, req, reqData, rfl⟩
      · rw [hkey u hmet hid.symm] at hnone
        cases hnone
      · rw [hrenew req reqData (hgrow _ hq)] at hoff
        cases hoff

/-- **MFA in id tokens**: in every run in which codes are presented only after they have been
handed out, a code is redeemed for a user with a passkey only if its login has asked for one, and
ceremonies are those of the user of the login, the code behind an id token that says mfa was
released by a finished ceremony of its user. -/
theorem mfa_tokens_released
    (hjson : ∀ st, data.authStateFromJson (data.authStateToJson st) = some st)
    (hsigned : IdTokensReadable data) (hdata₀ : ∀ k, w₀.cache .webauthnData k = none)
    (hkeys₀ : ∀ k ls, w₀.cache .webauthn k ≠ some (.passkeys ls))
    (h : Run (LoginCall.prog data pages) sem (fun _ l e => CodesHandedOut l e ∧ KeysAsked data l e ∧
      StartedForOwner l e ∧ FinishedForOwner l e) (init w₀) P)
    {t : ℕ} (ht : IssuesMfa data t P.log) : RedeemsReleased data t P.log := by
  obtain ⟨r, ts, token, kp, claims, hdone, hanswer, htoken, hsign, hmfa⟩ := ht
  obtain ⟨l₂, l, hl⟩ := List.append_of_mem hdone
  have hlate : ∀ e ∈ l, e ∈ P.log := fun e he => by
    rw [hl]
    simp [he]
  have hpast := Run.happened_at h hl
  obtain ⟨q, hq, hends⟩ := hpast.ends t r rfl
  have hnotPwd : ∀ amr, SignedWith data amr ts → amr = "mfa" := by
    intro amr hamr
    obtain ⟨kp', claims', hsign', hamr⟩ := hamr token htoken
    obtain rfl := hsigned _ _ _ _ _ hsign hsign'
    rw [hamr, List.mem_singleton] at hmfa
    exact hmfa.symm
  cases q with
  | other p hp =>
      rw [LoginEnds, hanswer] at hends
      cases hends.1
  | endpoint p =>
      simp only [LoginEnds, hanswer] at hends
      rcases hends.1.tokens _ rfl ts rfl with hpwd | ⟨idx, code, u, hget, hu, hamr⟩
      · have hne := hnotPwd _ hpwd
        exact absurd hne (by decide)
      have hkey : u.hasWebauthnEnabled = true := by
        by_contra hno
        rw [if_neg hno] at hamr
        exact absurd (hnotPwd _ hamr) (by decide)
      -- the code has been handed out before it was looked up
      obtain ⟨m₂, m, hm⟩ := List.append_of_mem (mem_of_seenBy hget)
      have hearly : ∀ e ∈ m, e ∈ l := fun e he => by
        rw [hm]
        simp [he]
      have hsplit : P.log = (l₂ ++ .done t (.ok r) :: m₂) ++
          .op t (.cacheGet .authCodes idx) (.ok (some (.authCode code))) :: m := by
        rw [hl, hm]
        simp
      obtain ⟨w, hhanded, -⟩ := (Run.happened_at h hsplit).cond
      obtain ⟨t₀, ⟨x, hput⟩, hout⟩ := hhanded t idx code rfl
      have hcreates : CreatesCode t₀ idx code l := ⟨x, hearly _ hput⟩
      have hcreates' : CreatesCode t₀ idx code P.log := ⟨x, hlate _ (hearly _ hput)⟩
      obtain ⟨w', -, hkept, -⟩ := hpast.cond
      have hasks := hkept t r idx code u t₀ rfl (mem_of_seenBy hget) hu hkey hcreates
      rcases hout with ⟨r', s, hdone', hanswer'⟩ | ⟨d, t', ⟨hfits, k, x', hstore⟩, r', hrel, hrel'⟩
      · have hl' : P.log = (l₂ ++ [.done t (.ok r)]) ++ l := by
          rw [hl]
          simp
        exact absurd hasks (Run.logsIn_skips h hl' hcreates' ⟨r', s, hearly _ hdone', hanswer'⟩)
      · have hasked : AsksCeremony t₀ d P.log := ⟨hfits, k, x', hlate _ (hearly _ hstore)⟩
        have hreleases : ReleasesLogin t' d P.log := ⟨r', hlate _ (hearly _ hrel), hrel'⟩
        exact ⟨idx, code, t₀, d, t', hlate _ (mem_of_seenBy hget), hcreates', hasked,
          Run.asks_owner h hcreates' hasked, hreleases,
          Run.released (fun _ _ _ hC => hC.2.2) hjson hdata₀ hkeys₀ h hreleases⟩

end Runs

/-! ### A renewed session -/

/-- The claims of alice's id token. -/
def mfaClaims : JWTClaims JwtIdClaims where
  issuedAt := 100
  expiresAt := 1900
  invalidBefore := 100
  issuer := "https://localhost/auth/v1"
  subject := some "alice"
  audiences := ["app"]
  nonce := none
  custom :=
    { azp := "app", typ := .id, amr := ["mfa"], authTime := 100
      -- the left half of a hash of 64 zeros
      atHash := String.ofList (List.replicate 43 'A')
      preferredUsername := "alice@localhost", email := none, emailVerified := none
      givenName := none, familyName := none, address := none, birthdate := none, locale := none
      phone := none, roles := ["admin"], groups := none, cnf := none, custom := none
      webid := none }

/-- A library that signs no other id token. -/
def amrState (renew : Bool) : AppState := { sampleState with
  sessionRenewMfa := renew
  signJwt := fun _ claims => match claims with
    | .access _ => .ok "access token"
    | .id claims => if claims = mfaClaims then .ok "id token" else .error ⟨.internal, "key"⟩
    | .refresh _ _ => .error ⟨.internal, "key"⟩ }

def loggedInSession : Session :=
  { formSession with state := .auth, userId := some "alice", roles := some "admin" }

/-- Alice has a passkey, and this session. -/
def amrWorld (session : Session) : World where
  clock := 100000
  issued := []
  db
    | .passkeys => [keyOf "alice"]
    | _ => []
  cache
    | .sessions, "session_s" => some (.session session)
    | .c12hr, "client_app" => some (.client sampleClient)
    | .c12hr, "jwk_latest_EdDSA" => some (.jwkKeyPair ⟨"kid", .edDSA, []⟩)
    | .users, "users__alice" => some (.user (keyedUser "alice"))
    | .users, "users__alice@localhost" => some (.user (keyedUser "alice"))
    | _, _ => none

/-- The session is renewed. -/
def aliceRenewal : LoginCall :=
  .endpoint (.authorizeRefresh formReq { (default : LoginRefreshRequest) with
    clientId := "app", redirectUri := "https://app/callback" })

def codeId : String := String.ofList (List.replicate 64 'a')

def aliceRedemption : LoginCall :=
  .endpoint (.token (default : HttpRequest) { (default : TokenRequest) with
    grantType := "authorization_code", code := some codeId, clientId := some "app"
    redirectUri := some "https://app/callback" })

theorem amrState_authStateFromJson (renew : Bool) (st : PasskeyAuthentication) :
    (amrState renew).authStateFromJson ((amrState renew).authStateToJson st) = some st :=
  sampleState_authStateFromJson st

theorem idTokensReadable_amrState (renew : Bool) : IdTokensReadable (amrState renew) := by
  have honly : ∀ kp c token, (amrState renew).signJwt kp (.id c) = .ok token → c = mfaClaims := by
    intro kp c token h
    by_contra hne
    have hnone : (amrState renew).signJwt kp (.id c) = .error ⟨.internal, "key"⟩ := if_neg hne
    rw [hnone] at h
    cases h
  intro kp kp' c c' token h h'
  rw [honly kp c token h, honly kp' c' token h']

/-- The operations of the redemption. -/
def redemptionMoves (t : ℕ) : List (Move LoginCall Choice) :=
  .start t aliceRedemption :: answeredMoves t [.ok, .ok, .time 100000, .ok, .time 100000, .ok,
    .time 100000, .time 100000, .ok, .ok, .time 100000, .ok, .ok, .ok] ++ [.done t]

/-- The answer of request `t` is the id token. -/
def issues (t : ℕ) (l : LoginRunLog) : Bool :=
  match Log.doneOf t l with
  | some (.ok ⟨some (.token (.ok ts)), _⟩) => ts.idToken == some "id token"
  | _ => false

theorem issuesMfa_of_issues {t : ℕ} {renew : Bool} (h : issues t l = true) :
    IssuesMfa (amrState renew) t l := by
  unfold issues at h
  split at h
  · next ts c hts =>
      have hsign : (amrState renew).signJwt default (.id mfaClaims) = .ok "id token" := by
        simp [amrState]
      exact ⟨_, ts, "id token", _, mfaClaims, Log.mem_of_doneOf hts, rfl, beq_iff_eq.mp h, hsign,
        List.mem_singleton_self _⟩
  · cases h

/-- Whoever is met has a passkey, and no session is renewed. -/
def meetsKeys : LoginRunEvent → Bool
  | .op _ (.cacheGet .users _) (.ok (some (.user u))) => u.hasWebauthnEnabled
  | .op _ (.select .users _) (.ok rows) => rows.all fun u => u.hasWebauthnEnabled
  | .op _ (.execute ss) _ => ss.all fun
      | .insert .users _ => false
      | _ => true
  | .start _ (.endpoint (.authorizeRefresh _ _)) => false
  | _ => true

theorem asksForKey_of_meetsKeys {data : AppState} {t : ℕ} {uid : String}
    (h : l.all meetsKeys = true) : AsksForKey data t uid l := by
  have hall := List.all_eq_true.mp h
  refine ⟨?_, fun req reqData hstart => ?_⟩
  · rintro u ⟨u₀, -, hkey, hmet⟩ -
    have hkey₀ : u₀.hasWebauthnEnabled = true := by
      rcases hmet with (⟨k, hk⟩ | ⟨p, rows, hrows⟩) | ⟨ss, x, hexec, hins⟩
      · have hget := hall _ (mem_of_seenBy hk)
        exact hget
      · have hrow := hall _ (mem_of_seenBy hrows)
        exact List.all_eq_true.mp hrow u₀ List.mem_cons_self
      · have hnone := List.all_eq_true.mp (hall _ (mem_of_seenBy hexec)) _ hins
        cases hnone
    rw [User.hasWebauthnEnabled, hkey] at hkey₀
    exact hkey₀
  · have hnone := hall _ hstart
    cases hnone

/-- Alice's login has been released before its code is looked up, and only alice is met. -/
def amrTest (l : LoginRunLog) (e : LoginRunEvent) : Bool :=
  forAlice l e && match e with
    | .op _ (.cacheGet .authCodes idx) (.ok (some (.authCode code))) =>
        releases 2 aliceLoginReq l && l.any (fun
          | .op 0 (.cachePut .authCodes k (.authCode c)) _ => decide (k = idx ∧ c = code)
          | _ => false) && l.any fun
          | .op 0 (.cachePut .webauthnData _ (.bytes b)) _ => decide (b = aliceLoginReq.encode)
          | _ => false
    | .done _ _ => l.all meetsKeys
    | _ => true

theorem conditions_of_amrTest {data : AppState} {e : LoginRunEvent} (h : amrTest l e = true) :
    CodesHandedOut l e ∧ KeysAsked data l e ∧ StartedForOwner l e ∧
      FinishedForOwner l e := by
  obtain ⟨hforAlice, h⟩ := Bool.and_eq_true_iff.mp h
  refine ⟨?_, ?_, forOwner_of_forAlice hforAlice⟩
  · rintro t idx code rfl
    obtain ⟨h, hasks⟩ := Bool.and_eq_true_iff.mp h
    obtain ⟨hrel, hput⟩ := Bool.and_eq_true_iff.mp h
    obtain ⟨e, he, hput⟩ := List.any_eq_true.mp hput
    obtain ⟨e', he', hasks⟩ := List.any_eq_true.mp hasks
    split at hput
    · next k c x =>
        obtain ⟨rfl, rfl⟩ := of_decide_eq_true hput
        split at hasks
        · next k' b x' =>
            obtain rfl := of_decide_eq_true hasks
            exact ⟨0, ⟨x, he⟩, .inr ⟨aliceLoginReq, 2, ⟨by decide +kernel, k', x', he'⟩,
              releasesLogin_of_releases hrel⟩⟩
        · cases hasks
    · cases hput
  · rintro t r idx code u t₀ rfl - - - -
    exact asksForKey_of_meetsKeys h

/-- Alice redeems the code of a login that her passkey has released. -/
theorem mfa_tokens_released_alice : ∃ P, Run (LoginCall.prog (amrState false) samplePages) sem
    (fun _ l e => CodesHandedOut l e ∧ KeysAsked (amrState false) l e ∧ StartedForOwner l e ∧
      FinishedForOwner l e) (init (amrWorld formSession)) P ∧
      IssuesMfa (amrState false) 3 P.log ∧ RedeemsReleased (amrState false) 3 P.log := by
  have htest : ∀ (w : World) l e, amrTest l e = true → CodesHandedOut l e ∧
      KeysAsked (amrState false) l e ∧ StartedForOwner l e ∧ FinishedForOwner l e :=
    fun _ _ _ h => conditions_of_amrTest h
  obtain ⟨P, hrun, hP⟩ := exists_run_of_moves (LoginCall.prog (amrState false) samplePages) Op.run
    (fun _ l e => amrTest l e) (amrWorld formSession) (keyMoves "alice" ++ redemptionMoves 3)
    (fun P => issues 3 P.log) (by
      -- texts evaluate faster as the bytes that they are kept in
      simp only [LoginCall.prog_def, Request.prog, postWebauthnAuthStart, authStart, postAuthorize,
        authorize, authorizeStep, awaitWebauthn, WebauthnLoginReq.save, WebauthnData.save, saveData, fits,
        WebauthnLoginReq.Fits, WebauthnAdditionalData.Fits, WebauthnData.Fits, WebauthnLoginReq.encode,
        WebauthnAdditionalData.encode, WebauthnData.encode, encStr, Text.asBytes_eq_toByteArray]
      decide +kernel) htest
  have hmfa : IssuesMfa (amrState false) 3 P.log := issuesMfa_of_issues hP
  refine ⟨P, hrun, hmfa, mfa_tokens_released (amrState_authStateFromJson false)
    (idTokensReadable_amrState false) (fun _ => rfl) ?_ hrun hmfa⟩
  intro k ls h
  cases h

/-- The renewal of the session, with the setting that asks for no passkey again. -/
def renewalMoves (t : ℕ) : List (Move LoginCall Choice) :=
  .start t aliceRenewal :: answeredMoves t [.ok, .time 100000, .time 100000, .ok, .ok, .rand codeId,
    .time 100000, .ok] ++ [.done t]

/-- The request has ended a ceremony. -/
def finishesCeremony : LoginRunEvent → Bool
  | .done _ (.ok r) => match r.answer with
      | some (.authFinished _) => true
      | _ => false
  | _ => false

/-- A token that says mfa, and nobody has ever been asked for a passkey. -/
theorem mfa_without_ceremony :
    ¬ ∀ (data : AppState) (pages : LoginPages) (w₀ : World) (P : LoginRunPool) (t : ℕ),
      (∀ st, data.authStateFromJson (data.authStateToJson st) = some st) → IdTokensReadable data →
      (∀ k, w₀.cache .webauthnData k = none) →
      (∀ k ls, w₀.cache .webauthn k ≠ some (.passkeys ls)) →
      Run (LoginCall.prog data pages) sem (fun _ _ _ => True) (init w₀) P →
      IssuesMfa data t P.log → RedeemsReleased data t P.log := by
  intro hall
  obtain ⟨P, hrun, hP⟩ := exists_run_of_moves (C := fun _ _ _ => True)
    (LoginCall.prog (amrState false) samplePages) Op.run (fun _ _ _ => true)
    (amrWorld loggedInSession) (renewalMoves 0 ++ redemptionMoves 1)
    (fun P => issues 1 P.log && P.log.all fun e => !finishesCeremony e) (by decide +kernel)
    (fun _ _ _ _ => trivial)
  obtain ⟨hmfa, hno⟩ := Bool.and_eq_true_iff.mp hP
  obtain ⟨idx, code, t₀, d, t', -, -, -, -, ⟨r, hdone, hanswer⟩, -⟩ :=
    hall (amrState false) samplePages (amrWorld loggedInSession) P 1
      (amrState_authStateFromJson false) (idTokensReadable_amrState false) (fun _ => rfl)
      (fun k ls h => by cases h) hrun (issuesMfa_of_issues hmfa)
  have hnone := List.all_eq_true.mp hno _ hdone
  simp only [finishesCeremony, hanswer] at hnone
  cases hnone

end Rauthy
