/-
Rauthy/Pkce.lean

The proof key of an authorization code.  `validate_code_challenge` checks the challenge and the
method of a login, `validate_auth_req_param` those of the other authorization requests, and the
token request presents the verifier.

Main result: `pkce_iff`, for which challenges and methods the three agree.
-/
import Rauthy.CodeRedemption
import Rauthy.Columns

namespace Rauthy

open Prog

namespace Client

def getChallenges (c : Client) : Option (List String) :=
  c.challenge.map fun s => (Text.split ',' s).map Text.trim

/-- The challenges are what the requests for clients let through: absent, or a list of methods. -/
def Configured (c : Client) : Prop :=
  c.challenge = none ∨ ∃ cs, validateVecChallenge cs = true ∧ c.challenge = some (Text.join "," cs)

end Client

section Exec

variable {data : AppState} {w w' : World} {ch method v : Option String}

theorem issueCode_challenge {user : User} {client : Client} {session : Session}
    {nonce : Option String} {scopes : List String} {code : AuthCode}
    (h : Exec sem (issueCode data user client session ch method nonce scopes) w (.ok code) w') :
    code.challenge = ch ∧ code.challengeMethod = method := by
  obtain ⟨c, w₁, hnew, h₁⟩ := exec_bind_ok.mp h
  obtain ⟨_, w₂, -, hret, rfl⟩ := exec_bind_ok.mp h₁
  obtain ⟨id, w₃, -, h₂⟩ := exec_bind_ok.mp hnew
  obtain ⟨now, w₄, -, hret', rfl⟩ := exec_bind_ok.mp h₂
  cases hret'
  cases hret
  exact ⟨rfl, rfl⟩

/-- Tokens are given for a code whose verifier passes the check. -/
theorem grantTypeCode_checked {req : HttpRequest} {reqData : TokenRequest} {code : AuthCode}
    {a : TokenSet × Headers} (hcode : ∀ idx, reqData.code = some idx →
      w.cache .authCodes idx = some (.authCode code))
    (h : Exec sem (grantTypeCode data req reqData) w (.ok a) w') :
    ∃ w₁ w₂, Exec sem (checkVerifier data code reqData.codeVerifier) w₁ (.ok ()) w₂ := by
  obtain ⟨idx, w₁, hidx, h₁⟩ := exec_bind_ok.mp h
  obtain ⟨hid, rfl⟩ := exec_okOr.mp hidx
  obtain ⟨⟨cid, secret⟩, w₂, hsecret, h₂⟩ := exec_bind_ok.mp h₁
  obtain ⟨-, rfl⟩ := exec_answer.mp hsecret
  obtain ⟨⟨client, fp, headers⟩, w₃, hclient, h₃⟩ := exec_bind_ok.mp h₂
  have hframe := (codeClient_touches data req cid secret).frame hclient
  obtain ⟨found, w₄, hfind, h₄⟩ := exec_bind_ok.mp h₃
  obtain ⟨c, w₅, hc, h₅⟩ := exec_bind_ok.mp h₄
  obtain ⟨hfound, rfl⟩ := exec_okOr.mp hc
  -- the code that is found is the one that is stored
  have hcc : c = code := by
    rcases exec_cacheGet.mp hfind with ⟨hn, -⟩ | ⟨c', v, hs, hv, has, -⟩
    · rw [hn] at hfound
      cases hfound
    · rw [hs] at hfound
      cases hfound
      rcases hframe.cache _ _ _ hv with hv | hslot
      · rw [hcode idx hid] at hv
        cases hv
        cases has
        rfl
      · simp at hslot
  obtain ⟨_, w₆, hcheck, -⟩ := exec_bind_ok.mp h₅
  obtain ⟨_, w₇, -, h₆⟩ := exec_bind_ok.mp hcheck
  obtain ⟨now, w₈, -, h₇⟩ := exec_bind_ok.mp h₆
  obtain ⟨_, w₉, -, h₈⟩ := exec_bind_ok.mp h₇
  rw [hcc] at h₈
  exact ⟨w₉, w₆, h₈⟩

end Exec

/-! ### When the checks agree -/

/-- The verifier matches the challenge: for `plain`, which is the default, it is the challenge,
else its hash is. -/
def MatchesVerifier (data : AppState) (ch method v : Option String) : Prop :=
  ∀ c, ch = some c → ∃ x, v = some x ∧
    if method.getD "plain" = "plain" then x = c
    else base64UrlEncode data (data.sha256 (Text.asBytes x)) = c

/-- The redemption of a code does not panic over the challenge, and takes just the verifiers
that match it. -/
structure Redeemable (data : AppState) (ch method : Option String) (code : AuthCode) : Prop where
  check : ∀ v w r w', Exec sem (checkVerifier data code v) w r w' →
    (∀ msg, r ≠ .error (.panic msg)) ∧ (r = .ok () ↔ MatchesVerifier data ch method v)
  grant : ∀ req reqData w a w', (∀ idx, reqData.code = some idx →
      w.cache .authCodes idx = some (.authCode code)) →
    Exec sem (grantTypeCode data req reqData) w (.ok a) w' →
    MatchesVerifier data ch method reqData.codeVerifier

/-- The three places agree about a challenge and a method. -/
structure PkceAgrees (data : AppState) (client : Client) (ch method : Option String) : Prop where
  same : client.validateCodeChallenge ch method = .ok () ↔
    client.checkAuthReqChallenge ch method = .ok ()
  element : client.validateCodeChallenge ch method = .ok () ∨
      client.checkAuthReqChallenge ch method = .ok () →
    ∀ m, method = some m → ∃ l, client.getChallenges = some l ∧ m ∈ l
  redeemable : client.validateCodeChallenge ch method = .ok () ∨
      client.checkAuthReqChallenge ch method = .ok () →
    ∀ user session nonce scopes w code w',
      Exec sem (issueCode data user client session ch method nonce scopes) w (.ok code) w' →
      Redeemable data ch method code

/-- A client without challenges is given none and no method; one with challenges is given a
challenge with a method that no method's name only contains, or, if `plain` is not allowed,
with no method. -/
def MethodNamed (client : Client) (ch method : Option String) : Prop :=
  match client.challenge, ch, method with
  | none, _, _ => ch = none ∧ method = none
  | some _, none, _ => True
  | some s, some _, none => ¬ Text.contains s "plain" = true
  | some s, some _, some m => Text.contains s m = true → m = "plain" ∨ m = "S256"

section Methods

variable {cs : List String} {m : String}

theorem methods_of_validate (h : validateVecChallenge cs = true) :
    cs ≠ [] ∧ ∀ c ∈ cs, c = "plain" ∨ c = "S256" := by
  unfold validateVecChallenge at h
  rw [Bool.and_eq_true, List.all_eq_true] at h
  refine ⟨fun hn => ?_, fun c hc => ?_⟩
  · rw [hn] at h
    cases h.1
  · have hre := h.2 c hc
    unfold reChallenge at hre
    simpa using hre

theorem noComma_methods (h : validateVecChallenge cs = true) : NoComma cs := by
  intro c hc
  rcases (methods_of_validate h).2 c hc with rfl | rfl
  · decide
  · decide

theorem getChallenges_configured {client : Client} (h : validateVecChallenge cs = true)
    (hc : client.challenge = some (Text.join "," cs)) : client.getChallenges = some cs := by
  unfold Client.getChallenges
  rw [hc, Option.map_some, read_join (methods_of_validate h).1 (noComma_methods h)]
  intro c hm
  rcases (methods_of_validate h).2 c hm with rfl | rfl
  · decide
  · decide

/-- A name without a comma that is found in the list is found in an element. -/
theorem exists_contains_of_join (hcs : cs ≠ []) (hc : NoComma cs) (hm : ',' ∉ m.toList)
    (h : Text.contains (Text.join "," cs) m = true) : ∃ c ∈ cs, Text.contains c m = true := by
  rw [Text.contains_iff, Csv.infix_iff_splitOn hm] at h
  obtain ⟨a, ha, hma⟩ := h
  refine ⟨String.ofList a, ?_, ?_⟩
  · rw [← split_join_comma hcs hc, Text.split_eq]
    exact List.mem_map_of_mem ha
  · rw [Text.contains_iff, String.toList_ofList]
    exact hma

theorem mem_of_contains_method (h : validateVecChallenge cs = true)
    (hm : m = "plain" ∨ m = "S256") (hfound : Text.contains (Text.join "," cs) m = true) :
    m ∈ cs := by
  have hcomma : ',' ∉ m.toList := by
    rcases hm with rfl | rfl <;> decide
  obtain ⟨c, hc, hcm⟩ := exists_contains_of_join (methods_of_validate h).1 (noComma_methods h)
    hcomma hfound
  -- neither of the two contains the other
  rcases hm with rfl | rfl <;> rcases (methods_of_validate h).2 c hc with rfl | rfl
  · exact hc
  · exact absurd hcm (by decide)
  · exact absurd hcm (by decide)
  · exact hc

end Methods

section Agree

variable {data : AppState} {client : Client} {ch method : Option String}

/-- A challenge with a method is checked against the verifier, whatever the verifier is. -/
theorem redeemable_of_method {code : AuthCode} (hc : code.challenge = ch)
    (hm : code.challengeMethod = method) (hsome : ch ≠ none → method ≠ none) :
    Redeemable data ch method code := by
  have hcheck : ∀ v w r w', Exec sem (checkVerifier data code v) w r w' →
      (∀ msg, r ≠ .error (.panic msg)) ∧ (r = .ok () ↔ MatchesVerifier data ch method v) := by
    intro v w r w' h
    unfold checkVerifier at h
    rw [hc] at h
    rcases ch with - | c
    · obtain ⟨rfl, -⟩ := h
      refine ⟨fun msg he => ?_, iff_of_true rfl fun c hc => ?_⟩
      · cases he
      · cases hc
    · obtain ⟨m, rfl⟩ := Option.ne_none_iff_exists'.mp (hsome (by simp))
      rw [hm] at h
      cases v with
      | none =>
          obtain ⟨rfl, -⟩ := h
          refine ⟨fun msg he => ?_, iff_of_false (fun he => ?_) fun hmatch => ?_⟩
          · cases he
          · cases he
          · obtain ⟨x, hx, -⟩ := hmatch c rfl
            cases hx
      | some x =>
          have hthrow : Exec sem (throwIf (c ≠ challengeOf data m x)
              (err .unauthorized "'code_verifier' does not match the challenge")) w r w' := h
          rw [exec_throwIf] at hthrow
          have hmatch : MatchesVerifier data (some c) (some m) (some x) ↔
              c = challengeOf data m x := by
            unfold MatchesVerifier challengeOf
            by_cases hp : m = "plain" <;> simp [hp, eq_comm]
          rw [hmatch]
          obtain ⟨rfl, -⟩ := hthrow
          by_cases heq : c = challengeOf data m x
          · rw [if_neg (not_not.mpr heq)]
            refine ⟨fun msg he => ?_, iff_of_true rfl heq⟩
            cases he
          · rw [if_pos heq]
            refine ⟨fun msg he => ?_, iff_of_false (fun he => ?_) heq⟩
            · cases he
            · cases he
  refine ⟨hcheck, fun req reqData w a w' hcode h => ?_⟩
  obtain ⟨w₁, w₂, hx⟩ := grantTypeCode_checked hcode h
  exact (hcheck _ _ _ _ hx).2.mp rfl

theorem validateChallengeMethod_ok {s m : String} (hc : client.challenge = some s) :
    client.validateChallengeMethod m = .ok () ↔ m ≠ "" ∧ Text.contains s m = true := by
  unfold Client.validateChallengeMethod
  rw [hc]
  by_cases h : m = "" ∨ ¬ Text.contains s m = true
  · simp only [if_pos h]
    exact iff_of_false (fun he => by cases he) fun hn => h.elim hn.1 fun h => h hn.2
  · simp only [if_neg h, true_iff]
    rw [not_or, not_not] at h
    exact h

/-- **Challenges, methods and verifiers.** -/
theorem pkce_iff (data : AppState) (client : Client) (ch method : Option String)
    (hclient : client.Configured) (hmethod : ∀ m, method = some m → reAlnum m = true) :
    PkceAgrees data client ch method ↔ MethodNamed client ch method := by
  have hne : ∀ m, method = some m → m ≠ "" := by
    rintro m hm rfl
    exact absurd (hmethod _ hm) (by decide)
  have hcodes : (ch ≠ none → method ≠ none) → ∀ user session nonce scopes w code w',
      Exec sem (issueCode data user client session ch method nonce scopes) w (.ok code) w' →
      Redeemable data ch method code := by
    intro hsome user session nonce scopes w code w' hx
    obtain ⟨hc, hm⟩ := issueCode_challenge hx
    exact redeemable_of_method hc hm hsome
  rcases hs : client.challenge with - | s
  · -- the second check lets everything pass
    have hget : client.checkAuthReqChallenge ch method = .ok () := by
      simp [Client.checkAuthReqChallenge, hs]
    have hpost : client.validateCodeChallenge ch method = .ok () ↔ ch = none ∧ method = none := by
      unfold Client.validateCodeChallenge
      rw [hs]
      cases ch <;> cases method <;> simp
    simp only [MethodNamed, hs]
    refine ⟨fun h => hpost.mp (h.same.mpr hget), ?_⟩
    rintro ⟨rfl, rfl⟩
    refine ⟨iff_of_true (hpost.mpr ⟨rfl, rfl⟩) hget, fun _ m hm => ?_,
      fun _ => hcodes fun h => absurd rfl h⟩
    cases hm
  · obtain ⟨cs, hcs, hjoin⟩ : ∃ cs, validateVecChallenge cs = true ∧ s = Text.join "," cs := by
      rcases hclient with hn | ⟨cs, hcs, hc⟩
      · rw [hs] at hn
        cases hn
      · rw [hs] at hc
        exact ⟨cs, hcs, Option.some.inj hc⟩
    have hchallenges : client.getChallenges = some cs :=
      getChallenges_configured hcs (by rw [hs, hjoin])
    have hsome : client.challenge.isSome = true := by rw [hs]; rfl
    rcases ch with - | c
    · -- both ask for a challenge
      have hpost : client.validateCodeChallenge none method ≠ .ok () := by
        simp [Client.validateCodeChallenge, hs]
      have hget : client.checkAuthReqChallenge none method ≠ .ok () := by
        simp [Client.checkAuthReqChallenge, hs]
      simp only [MethodNamed, hs]
      refine iff_of_true ⟨iff_of_false hpost hget, ?_, ?_⟩ trivial
      · rintro (h | h)
        · exact absurd h hpost
        · exact absurd h hget
      · exact fun _ => hcodes fun h => absurd rfl h
    · have hget : client.checkAuthReqChallenge (some c) method = .ok () ↔
          Text.contains s (method.getD "plain") = true := by
        unfold Client.checkAuthReqChallenge
        rw [if_pos hsome, if_neg (by simp), validateChallengeMethod_ok hs]
        refine and_iff_right ?_
        cases method with
        | none => decide
        | some m => exact hne m rfl
      rcases method with - | m
      · -- only the second check knows the default, and the code has no method
        have hpost : client.validateCodeChallenge (some c) none ≠ .ok () := by
          simp [Client.validateCodeChallenge, hs]
        simp only [MethodNamed, hs]
        refine ⟨fun h hplain => hpost (h.same.mpr (hget.mpr hplain)), fun hplain => ?_⟩
        have hget' : client.checkAuthReqChallenge (some c) none ≠ .ok () := mt hget.mp hplain
        have hno : ¬ (client.validateCodeChallenge (some c) none = .ok () ∨
            client.checkAuthReqChallenge (some c) none = .ok ()) := not_or.mpr ⟨hpost, hget'⟩
        exact ⟨iff_of_false hpost hget', fun h => absurd h hno, fun h => absurd h hno⟩
      · have hpost : client.validateCodeChallenge (some c) (some m) = .ok () ↔
            Text.contains s m = true := by
          unfold Client.validateCodeChallenge
          rw [hs]
          by_cases hf : Text.contains s m = true <;> simp [hf]
        simp only [MethodNamed, hs]
        constructor
        · intro h hfound
          obtain ⟨l, hl, hm⟩ := h.element (.inl (hpost.mpr hfound)) m rfl
          rw [hchallenges] at hl
          cases hl
          exact (methods_of_validate hcs).2 m hm
        · intro h
          refine ⟨hpost.trans hget.symm, fun hok m' hm' => ?_, fun _ => hcodes (by simp)⟩
          cases hm'
          have hfound : Text.contains s m = true := hok.elim hpost.mp hget.mp
          refine ⟨cs, hchallenges, ?_⟩
          rw [hjoin] at hfound h
          exact mem_of_contains_method hcs (h hfound) hfound

end Agree

/-- A client that may use both methods. -/
def pkceClient : Client := { sampleClient with challenge := some "S256,plain" }

theorem configured_pkceClient : pkceClient.Configured :=
  .inr ⟨["S256", "plain"], by decide, by decide⟩

theorem pkce_s256 : PkceAgrees sampleState pkceClient (some "abc") (some "S256") :=
  (pkce_iff sampleState pkceClient (some "abc") (some "S256") configured_pkceClient
    (by rintro m ⟨⟩; decide)).mpr fun _ => .inr rfl

/-- A code as it is issued for a challenge without a method. -/
def plainCode : AuthCode := { sampleCode with challenge := some "abc", challengeMethod := none }

def plainWorld : World := codeWorld.put .authCodes "code" (.authCode plainCode)

/-- A challenge without a method is refused in one place and accepted in the other, and the
redemption of such a code panics. -/
theorem challenge_without_method_panics :
    pkceClient.validateCodeChallenge (some "abc") none ≠ .ok () ∧
    pkceClient.checkAuthReqChallenge (some "abc") none = .ok () ∧
    ∃ w', Exec sem (grantTypeCode sampleState codeReq.req
        { codeReq.reqData with codeVerifier := some "abc" }) plainWorld
      (.error (.panic "called `Option::unwrap()` on a `None` value")) w' := by
  refine ⟨by decide, by decide, ?_⟩
  obtain ⟨r, w', hx, hr⟩ := Pool.exists_exec_of_choices Op.run
    (grantTypeCode sampleState codeReq.req { codeReq.reqData with codeVerifier := some "abc" })
    [.ok, .ok, .time 100000] plainWorld
    (fun r _ => decide (r = .error (.panic "called `Option::unwrap()` on a `None` value")))
    (by decide +kernel)
  rw [of_decide_eq_true hr] at hx
  exact ⟨w', hx⟩

end Rauthy
