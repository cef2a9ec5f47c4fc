/-
Rauthy/ClientLogin.lean

The login of an application with the client library (`handler/mod.rs`, `cookie_state.rs` and
`token_set.rs` of `rauthy-client/src`), together with the endpoints of the server.

The library draws a nonce, a state and a verifier, seals them in a cookie, and sends the browser to
the server with the nonce and the challenge of the verifier.  The browser comes back with a code.
Whatever code and state come back, and from whomever: the callback redeems the code with its
verifier, and the id token has to name its nonce.

Main result:
  * `callback_own_login`: a callback that succeeds ends a login that was started with the nonce of
    the cookie, and the subject of its tokens is the user who has logged in there.
-/
import Rauthy.AmrClaims
import Rauthy.ClientJwks
import Rauthy.LinkCookie

namespace Rauthy

open Prog Pool

/-! ### What a login hands on to its code -/

/-- The code has the nonce and the challenge of the login request.  A login at an upstream provider
has kept them in its callback. -/
inductive Request.Carries (code : AuthCode) (tr : List (Seen Op Op.Res)) : Request → Prop
  | authorize {req : HttpRequest} {reqData : LoginRequest} (hnonce : code.nonce = reqData.nonce)
      (hchallenge : code.challenge = reqData.codeChallenge)
      (hmethod : code.challengeMethod = reqData.codeChallengeMethod) :
      Carries code tr (.authorize req reqData)
  | refresh {req : HttpRequest} {reqData : LoginRefreshRequest}
      (hnonce : code.nonce = reqData.nonce) (hchallenge : code.challenge = reqData.codeChallenge)
      (hmethod : code.challengeMethod = reqData.codeChallengeMethod) :
      Carries code tr (.authorizeRefresh req reqData)
  | upstream {req : HttpRequest} {payload : ProviderCallbackRequest} {slf : AuthProviderCallback}
      (hfound : ⟨.cacheGet .authProviderCallback payload.state,
        .ok (some (.authProviderCallback slf))⟩ ∈ tr)
      (hnonce : code.nonce = slf.reqNonce) (hchallenge : code.challenge = slf.reqCodeChallenge)
      (hmethod : code.challengeMethod = slf.reqCodeChallengeMethod) :
      Carries code tr (.providerCallback req payload)

theorem Request.Carries.mono {code : AuthCode} {tr tr' : List (Seen Op Op.Res)} {r : Request}
    (h : r.Carries code tr) (htr : ∀ v ∈ tr, v ∈ tr') : r.Carries code tr' := by
  cases h with
  | authorize hnonce hchallenge hmethod => exact .authorize hnonce hchallenge hmethod
  | refresh hnonce hchallenge hmethod => exact .refresh hnonce hchallenge hmethod
  | upstream hfound hnonce hchallenge hmethod =>
      exact .upstream (htr _ hfound) hnonce hchallenge hmethod

/-- A code that is put carries what its login has asked for. -/
def CarriesStep (q : LoginCall) (tr : List (Seen Op Op.Res)) (s : Seen Op Op.Res) : Prop :=
  ∀ k code, s.1 = .cachePut .authCodes k (.authCode code) →
    k = code.id ∧ ∃ r, q = .endpoint r ∧ r.Carries code tr

section Sees

variable {α ε : Type} {data : AppState} {pages : LoginPages} {q : LoginCall} {r : Request}
  {tr : List (Seen Op Op.Res)} {user : User} {session : Session} {req : HttpRequest}

theorem sees_uncoded {p : Prog Op Op.Res ε α} {ts : List Table} {cs : List (CacheName × Slot)}
    (hp : Touches ts cs p) (hcs : ∀ c ∈ cs, c.1 ≠ .authCodes) :
    Sees Op.Possible (CarriesStep q) p (fun _ _ => True) tr := by
  apply sees_of_within hp
  intro o ho tr x _ k code he
  obtain rfl : o = _ := he
  exact absurd rfl (hcs _ ho)

theorem sees_newAuthCode {client : Client} {sid challenge method nonce : Option String}
    {scopes : List String} {lifetime : Int} :
    Sees Op.Possible (CarriesStep q)
      (AuthCode.new user.id client.id sid challenge method nonce scopes lifetime)
      (fun code _ => code.nonce = nonce ∧ code.challenge = challenge ∧
        code.challengeMethod = method) tr := by
  have hrand : Touches [] [] (getRand 64 : M ErrorResponse String) := touches_getRand 64
  have hnow : Touches [] [] (unixTimestamp : M ErrorResponse Int) := touches_unixTimestamp
  apply sees_bind (sees_uncoded hrand (by simp))
  intro id _ _ _
  apply sees_bind (sees_uncoded hnow (by simp))
  intro now _ _ _
  exact sees_ret ⟨rfl, rfl, rfl⟩

theorem sees_saveCarried {code : AuthCode} (hcode : r.Carries code tr) :
    Sees Op.Possible (CarriesStep (.endpoint r)) code.save (fun _ _ => True) tr := by
  apply sees_mono (sees_cachePut fun x => ?_) fun _ _ _ _ => trivial
  rintro k c he
  cases he
  exact ⟨rfl, r, rfl, hcode⟩

theorem awaitWebauthn_touches {hashed : Bool} {loc : String} {origin : Option String} :
    Touches [] [(.webauthnData, .bytes)] (awaitWebauthn data user session hashed loc origin) := by
  apply touches_bind (touches_getRand 48)
  intro code
  apply touches_bind _ fun _ => touches_ret _
  exact touches_bind (touches_throwIf _ _) fun _ => touches_cachePut (by simp [CacheVal.slot]) _

theorem authorizeStep_touches {hashed : Bool} {loc : String} {origin : Option String} :
    Touches [.sessions] [(.sessions, .session), (.webauthnData, .bytes)]
      (authorizeStep data user session hashed loc origin) := by
  unfold authorizeStep
  split
  · apply touches_bind ((session.setMfa_touches true).mono (by simp) (by simp))
    intro s
    exact awaitWebauthn_touches.mono (by simp) (by simp)
  · exact touches_ret _

theorem sees_issueCode {client : Client} {challenge method nonce : Option String}
    {scopes : List String} (hcode : ∀ code tr', (∀ v ∈ tr, v ∈ tr') → code.nonce = nonce →
      code.challenge = challenge → code.challengeMethod = method → r.Carries code tr') :
    Sees Op.Possible (CarriesStep (.endpoint r))
      (issueCode data user client session challenge method nonce scopes) (fun _ _ => True) tr := by
  apply sees_bind sees_newAuthCode
  intro code tr₁ hsub h
  obtain ⟨hnonce, hchallenge, hmethod⟩ := h
  apply sees_bind (sees_saveCarried (hcode code tr₁ hsub hnonce hchallenge hmethod))
  exact fun _ _ _ _ => sees_ret trivial

theorem sees_authorizeCarried {reqData : LoginRequest} :
    Sees Op.Possible (CarriesStep (.endpoint (.authorize req reqData)))
      (postAuthorize data req reqData) (fun _ _ => True) tr := by
  apply sees_bind (sees_uncoded (getPrincipal_touches data req) (by simp))
  intro principal _ _ _
  apply sees_bind sees_answer
  intro session _ _ _
  apply sees_mapErr
  apply sees_bind (sees_uncoded (authorizeUser_touches req reqData) (by simp))
  intro user _ _ _
  apply sees_bind (sees_uncoded (touches_mapErr (checkLoginPassword_touches user _))
    (by simp [updateSlots]))
  intro c _ _ _
  obtain ⟨user, hashed⟩ := c
  apply sees_bind (sees_uncoded (authorizeClient_touches req reqData user hashed) (by simp))
  intro c _ _ _
  obtain ⟨client, origin⟩ := c
  apply sees_bind (sees_mapErr (sees_issueCode fun _ _ _ hn hc hm => .authorize hn hc hm))
  intro code _ _ _
  exact sees_mapErr (sees_uncoded authorizeStep_touches (by simp))

theorem validateAuthReqParam_touches (clientId uri : String) (challenge method : Option String) :
    Touches [] [(.c12hr, .client), (.ephemeralClients, .client)]
      (validateAuthReqParam data req clientId uri challenge method) := by
  apply touches_bind (Client.findMaybeEphemeral_touches data clientId)
  intro client
  apply touches_bind (touches_answer _)
  intro header
  apply touches_bind (touches_answer _)
  intro _
  exact touches_bind (touches_answer _) fun _ => touches_ret _

theorem sees_refreshCarried {reqData : LoginRefreshRequest} :
    Sees Op.Possible (CarriesStep (.endpoint (.authorizeRefresh req reqData)))
      (postAuthorizeRefresh data req reqData) (fun _ _ => True) tr := by
  apply sees_bind (sees_uncoded (getPrincipal_touches data req) (by simp))
  intro principal _ _ _
  apply sees_bind sees_answer
  intro session _ _ _
  apply sees_bind (sees_uncoded (validateAuthReqParam_touches _ _ _ _) (by simp))
  intro c _ _ _
  obtain ⟨client, origin⟩ := c
  apply sees_bind sees_okOr
  intro uid _ _ _
  apply sees_bind (sees_uncoded (User.find_touches uid) (by simp))
  intro user _ _ _
  apply sees_bind (sees_uncoded user.checkEnabled_touches (by simp))
  intro _ _ _ _
  apply sees_bind (sees_uncoded user.checkExpired_touches (by simp))
  intro _ _ _ _
  apply sees_bind sees_answer
  intro _ _ _ _
  apply sees_bind (sees_issueCode fun _ _ _ hn hc hm => .refresh hn hc hm)
  intro code _ _ _
  split
  · exact sees_uncoded awaitWebauthn_touches (by simp)
  · exact sees_ret trivial

/-- The callback that the payload names has been found. -/
def FindsCallback (payload : ProviderCallbackRequest) (slf : AuthProviderCallback)
    (tr : List (Seen Op Op.Res)) : Prop :=
  ⟨.cacheGet .authProviderCallback payload.state, .ok (some (.authProviderCallback slf))⟩ ∈ tr

theorem sees_callbackChecked {payload : ProviderCallbackRequest} :
    Sees Op.Possible (CarriesStep q) (checkCallback data req payload)
      (fun slf tr' => FindsCallback payload slf tr') tr := by
  have hdel : ∀ (id : String) (e : ErrorResponse) tr, Sees Op.Possible (CarriesStep q)
      (do AuthProviderCallback.delete id; fail (.err e) : M ErrorResponse AuthProviderCallback)
      (fun slf tr' => FindsCallback payload slf tr') tr := by
    intro id e tr
    have hfree : Touches [] [] (AuthProviderCallback.delete id) := touches_cacheDel _ _
    exact sees_bind (sees_uncoded hfree (by simp)) fun _ _ _ _ => sees_fail
  apply sees_bind sees_okOr
  intro cookie _ _ _
  apply sees_bind sees_answer
  intro id tr₁ _ _
  split
  · exact hdel _ _ _
  · next hid =>
    rw [not_not] at hid
    have hget : ∀ x, CarriesStep q tr₁ ⟨.cacheGet .authProviderCallback id, x⟩ := by
      rintro x k code ⟨⟩
    have hfind : Sees Op.Possible (CarriesStep q) (AuthProviderCallback.find id)
        (fun slf tr' => FindsCallback payload slf tr') tr₁ := by
      apply sees_bind (sees_cacheGet hget)
      intro found tr₂ _ hfound
      obtain ⟨y, rfl, hfound⟩ := hfound
      apply sees_mono sees_okOr
      rintro slf tr₃ - ⟨rfl, rfl⟩
      rcases hfound with ⟨h, -⟩ | ⟨v, a, h, rfl, ha⟩
      · cases h
      · cases h
        rw [hid]
        cases v with
        | authProviderCallback w =>
            cases ha
            exact List.mem_cons_self
        | _ => cases ha
    apply sees_bind hfind
    intro slf tr₂ _ hslf
    split
    · exact hdel _ _ _
    · split
      · exact hdel _ _ _
      · exact sees_ret hslf

theorem sees_callbackCarried {payload : ProviderCallbackRequest} :
    Sees Op.Possible (CarriesStep (.endpoint (.providerCallback req payload)))
      (postProviderCallback data req payload) (fun _ _ => True) tr := by
  apply sees_bind (sees_uncoded (getPrincipal_touches data req) (by simp))
  intro principal _ _ _
  apply sees_bind sees_answer
  intro session _ _ _
  apply sees_bind sees_callbackChecked
  intro slf tr₁ _ hslf
  apply sees_bind (sees_uncoded (authProviderFind_touches _) (by simp))
  intro provider tr₂ hsub₂ _
  have hexchange : Touches [] [] (call (.exchangeUpstreamCode provider payload.code) answer :
      M ErrorResponse AuthProviderIdClaims) := ⟨trivial, fun x => touches_answer x⟩
  apply sees_bind (sees_uncoded hexchange (by simp))
  intro claims tr₃ hsub₃ _
  apply sees_bind (sees_uncoded (validateUpdateUser_touches _) (by simp [loginSlots]))
  intro c tr₄ hsub₄ _
  obtain ⟨user, mfa⟩ := c
  apply sees_bind (sees_uncoded user.checkEnabled_touches (by simp))
  intro _ tr₅ hsub₅ _
  apply sees_bind (sees_uncoded user.checkExpired_touches (by simp))
  intro _ tr₆ hsub₆ _
  split
  · exact sees_ret trivial
  -- the account has not been linked only: the login goes on with a code
  apply sees_bind (sees_uncoded (Client.findMaybeEphemeral_touches data _) (by simp))
  intro client tr₇ hsub₇ _
  apply sees_bind (sees_uncoded (forceMfaSession_touches _ _ _ _) (by simp))
  intro session tr₈ hsub₈ _
  have hlate : ∀ v ∈ tr₁, v ∈ tr₈ := fun v hv =>
    hsub₈ v (hsub₇ v (hsub₆ v (hsub₅ v (hsub₄ v (hsub₃ v (hsub₂ v hv))))))
  apply sees_bind sees_answer
  intro _ tr₉ hsub₉ _
  apply sees_bind sees_answer
  intro _ tr₁₀ hsub₁₀ _
  apply sees_bind sees_answer
  intro origin tr₁₁ hsub₁₁ _
  apply sees_bind sees_newAuthCode
  intro code tr₁₂ hsub₁₂ hcode
  obtain ⟨hnonce, hchallenge, hmethod⟩ := hcode
  have hfound : FindsCallback payload slf tr₁₂ :=
    hsub₁₂ _ (hsub₁₁ _ (hsub₁₀ _ (hsub₉ _ (hlate _ hslf))))
  apply sees_bind (sees_saveCarried (.upstream hfound hnonce hchallenge hmethod))
  intro _ _ _ _
  split
  · exact sees_uncoded awaitWebauthn_touches (by simp)
  · exact sees_ret trivial

theorem LoginStep.carries {s : Seen Op Op.Res} (h : LoginStep data q tr s)
    (hq : ∀ r, q = .endpoint r → r.loginReq? = none) : CarriesStep q tr s := by
  intro k code he
  obtain ⟨-, r, c, u, hr, -, -, -, hvouched⟩ := h.codes _ _ he
  have hno := hq r hr
  cases hvouched <;> cases hno

/-- **What each request promises of its codes.** -/
theorem sees_carried (q : LoginCall) :
    Sees Op.Possible (CarriesStep q) (q.prog data pages) (fun _ _ => True) [] := by
  have hother : (∀ r, q = .endpoint r → r.loginReq? = none) →
      Sees Op.Possible (CarriesStep q) (q.prog data pages) (fun _ _ => True) [] := fun hq =>
    sees_mono (seenWp_weaken (sees_loginCall q) fun _ _ h => h.carries hq) fun _ _ _ _ => trivial
  -- the cookie that goes along with the answer of a login is no code
  have hlogin : ∀ {r : Request}, q = .endpoint r →
      Sees Op.Possible (CarriesStep (.endpoint r)) (r.prog data) (fun _ _ => True) [] →
      Sees Op.Possible (CarriesStep q) (q.prog data pages) (fun _ _ => True) [] := by
    rintro r rfl hr
    apply sees_bind hr
    intro a tr _ _
    have hmfa : Sees Op.Possible (CarriesStep (.endpoint r)) (mfaCookieFor data pages r a)
        (fun c _ => CookieOfStep pages a c) tr := by
      apply seenWp_weaken LoginStep.sees_mfaCookieFor
      intro tr v h k code he
      have hno := h.puts
      rw [he] at hno
      exact absurd (by simp) hno
    exact sees_bind hmfa fun _ _ _ _ => sees_ret trivial
  cases q with
  | other p h => exact hother fun r hr => by cases hr
  | endpoint r =>
      cases r with
      | authorize req reqData =>
          exact hlogin rfl (sees_bind sees_authorizeCarried fun _ _ _ _ => sees_ret trivial)
      | authorizeRefresh req reqData =>
          exact hlogin rfl (sees_bind sees_refreshCarried fun _ _ _ _ => sees_ret trivial)
      | providerCallback req payload =>
          exact hlogin rfl (sees_bind sees_callbackCarried fun _ _ _ _ => sees_ret trivial)
      | _ => exact hother fun r hr => by cases hr; rfl

end Sees

/-! ### What the tokens for a code say -/

/-- The request has redeemed the code for tokens of the user. -/
structure RedeemsFor (data : AppState) (req : HttpRequest) (reqData : TokenRequest) (ts : TokenSet)
    (code : AuthCode) (user : User) (tr : List (Seen Op Op.Res)) : Prop where
  found : ∃ idx, reqData.code = some idx ∧
    ⟨.cacheGet .authCodes idx, .ok (some (.authCode code))⟩ ∈ tr
  client : ∃ secret, reqData.tryGetClientIdSecret data req = .ok (code.clientId, secret)
  live : ∃ ms : Int, ⟨.now, ms⟩ ∈ tr ∧ ms / 1000 ≤ code.exp
  fits : ∀ challenge, code.challenge = some challenge → ∃ verifier method,
    reqData.codeVerifier = some verifier ∧ code.challengeMethod = some method ∧
      challenge = challengeOf data method verifier
  owner : FindsUser code.userId user tr
  tokens : ∃ client fp, ts.IsFor data user client fp code.nonce
    (some (Text.join " " code.scopes)) .no

theorem RedeemsFor.mono {data : AppState} {req : HttpRequest} {reqData : TokenRequest}
    {ts : TokenSet} {code : AuthCode} {user : User} {tr tr' : List (Seen Op Op.Res)}
    (h : RedeemsFor data req reqData ts code user tr) (htr : ∀ v ∈ tr, v ∈ tr') :
    RedeemsFor data req reqData ts code user tr' where
  found := by
    obtain ⟨idx, hidx, hmem⟩ := h.found
    exact ⟨idx, hidx, htr _ hmem⟩
  client := h.client
  live := by
    obtain ⟨ms, hmem, hle⟩ := h.live
    exact ⟨ms, htr _ hmem, hle⟩
  fits := h.fits
  owner := h.owner.mono htr
  tokens := h.tokens

section Sees

variable {α : Type} {data : AppState} {tr : List (Seen Op Op.Res)} {code : AuthCode}
  {req : HttpRequest} {reqData : TokenRequest}

/-- No promise is asked of an operation. -/
abbrev Free : List (Seen Op Op.Res) → Seen Op Op.Res → Prop := fun _ _ => True

theorem sees_any (p : M ErrorResponse α) : Sees Op.Possible Free p (fun _ _ => True) tr := by
  have hany : ∀ o : Op, (fun _ => True) o := fun _ => trivial
  exact sees_of_within (within_of_forall hany p) fun _ _ _ _ _ => trivial

theorem sees_checkVerifier {verifier : Option String} :
    Sees Op.Possible Free (checkVerifier data code verifier) (fun _ _ => ∀ challenge,
      code.challenge = some challenge → ∃ v method, verifier = some v ∧
        code.challengeMethod = some method ∧ challenge = challengeOf data method v) tr := by
  unfold checkVerifier
  split
  · next hnone =>
    apply sees_ret
    intro challenge h
    rw [hnone] at h
    cases h
  · next challenge hsome =>
    apply sees_bind sees_okOr
    rintro v _ - ⟨-, hv⟩
    apply sees_bind sees_unwrap
    rintro method _ - ⟨-, hmethod⟩
    apply sees_mono sees_throwIf
    rintro _ _ - ⟨-, hfits⟩ c hc
    rw [hsome] at hc
    cases hc
    exact ⟨v, method, hv, hmethod, not_not.mp hfits⟩

theorem sees_checkCode {clientId : String} {verifier : Option String} :
    Sees Op.Possible Free (checkCode data code clientId verifier) (fun _ tr' =>
      code.clientId = clientId ∧ (∃ ms : Int, ⟨.now, ms⟩ ∈ tr' ∧ ms / 1000 ≤ code.exp) ∧
        ∀ challenge, code.challenge = some challenge → ∃ v method, verifier = some v ∧
          code.challengeMethod = some method ∧ challenge = challengeOf data method v) tr := by
  apply sees_bind sees_throwIf
  rintro _ tr₁ - ⟨rfl, hid⟩
  apply sees_bind (sees_unixTimestamp fun _ => trivial)
  rintro now tr₂ - ⟨ms, rfl, rfl⟩
  apply sees_bind sees_throwIf
  rintro _ tr₃ - ⟨rfl, hlive⟩
  apply sees_mono sees_checkVerifier
  intro _ tr₄ hsub hfits
  exact ⟨not_not.mp hid, ⟨ms, hsub _ List.mem_cons_self, Int.not_lt.mp hlive⟩, hfits⟩

theorem sees_grantCode :
    Sees Op.Possible Free (grantTypeCode data req reqData) (fun c tr' =>
      ∃ code user, RedeemsFor data req reqData c.1 code user tr') tr := by
  have hfree : Allows Free [] TokenSet.slots := fun _ _ _ _ _ => trivial
  apply sees_bind sees_okOr
  rintro idx tr₁ - ⟨-, hidx⟩
  apply sees_bind sees_answer
  rintro ⟨clientId, secret⟩ tr₂ - ⟨-, hclient⟩
  apply sees_bind (sees_any _)
  rintro ⟨client, fp, headers⟩ tr₃ - -
  apply sees_bind (sees_cacheGet fun _ => trivial)
  rintro found tr₄ - ⟨y, rfl, hfound⟩
  apply sees_bind sees_okOr
  rintro code tr₅ - ⟨rfl, rfl⟩
  have hmem : (⟨.cacheGet .authCodes idx, .ok (some (.authCode code))⟩ : Seen Op Op.Res) ∈
      ⟨.cacheGet .authCodes idx, .ok y⟩ :: tr₃ := by
    rcases hfound with ⟨h, -⟩ | ⟨v, a, h, rfl, ha⟩
    · cases h
    · cases h
      rw [CacheVal.authCode?_eq_some.mp ha]
      exact List.mem_cons_self
  apply sees_bind sees_checkCode
  rintro _ tr₆ hsub₆ ⟨rfl, hlive, hfits⟩
  apply sees_bind (User.sees_find (hfree.mono (by simp) (by simp)) fun _ _ _ _ => trivial)
  intro user tr₇ hsub₇ huser
  apply sees_bind (sees_fromUser hfree fun _ _ _ _ _ _ _ _ _ => trivial)
  rintro ts tr₈ hsub₈ ⟨hts, -⟩
  have hlate : ∀ v ∈ tr₆, v ∈ tr₈ := fun v hv => hsub₈ v (hsub₇ v hv)
  obtain ⟨ms, hms, hle⟩ := hlive
  have hredeems : RedeemsFor data req reqData ts code user tr₈ :=
    ⟨⟨idx, hidx, hlate _ (hsub₆ _ hmem)⟩, ⟨secret, hclient⟩, ⟨ms, hlate _ hms, hle⟩, hfits,
      FindsUser.mono huser hsub₈, client, fp, hts⟩
  apply sees_bind (sees_any _)
  intro _ tr₉ hsub₉ _
  apply sees_bind (sees_any _)
  intro _ tr₁₀ hsub₁₀ _
  apply sees_bind (sees_any _)
  intro _ tr₁₁ hsub₁₁ _
  apply sees_ret
  exact ⟨code, user, hredeems.mono fun v hv => hsub₁₁ v (hsub₁₀ v (hsub₉ v hv))⟩

theorem sees_tokenRedeems (hgrant : reqData.grantType = "authorization_code") :
    Sees Op.Possible Free (postToken data req reqData) (fun a tr' => ∀ ts, a = .ok ts →
      ∃ code user, RedeemsFor data req reqData ts code user tr') tr := by
  have hdevice : reqData.grantType ≠ grantTypeDeviceCodeName := by
    rw [hgrant, grantTypeDeviceCodeName]
    decide
  rw [postToken, if_neg hdevice, getTokenSet, if_pos hgrant]
  apply sees_bind sees_grantCode
  rintro ⟨ts, headers⟩ tr' - h
  apply sees_ret
  rintro _ ⟨⟩
  exact h

end Sees

/-- What a token request for a code has seen when it is answered. -/
def TokenPost (data : AppState) (q : LoginCall) (a : LoginResponse) (tr : List (Seen Op Op.Res)) :
    Prop :=
  ∀ req reqData ts, q = .endpoint (.token req reqData) →
    reqData.grantType = "authorization_code" → a.answer = some (.token (.ok ts)) →
      ∃ code user, RedeemsFor data req reqData ts code user tr

theorem sees_tokenPost {data : AppState} {pages : LoginPages} (q : LoginCall) :
    Sees Op.Possible Free (q.prog data pages) (fun a tr' => TokenPost data q a tr') [] := by
  cases q with
  | other p h => exact sees_mono (sees_any _) fun _ _ _ _ _ _ _ hq => by cases hq
  | endpoint r =>
      cases r with
      | token req reqData =>
          by_cases hgrant : reqData.grantType = "authorization_code"
          · have htoken : Sees Op.Possible Free ((Request.token req reqData).prog data)
                (fun a tr' => ∀ ts, a = .token (.ok ts) →
                  ∃ code user, RedeemsFor data req reqData ts code user tr') [] := by
              apply sees_bind (sees_tokenRedeems hgrant)
              intro a tr' _ h
              apply sees_ret
              rintro ts ⟨⟩
              exact h ts rfl
            apply sees_bind htoken
            intro a tr₁ _ h
            apply sees_bind (sees_any _)
            intro cookie tr₂ hsub _
            apply sees_ret
            rintro _ _ ts ⟨⟩ - ha
            obtain ⟨code, user, hredeems⟩ := h ts (Option.some.inj ha)
            exact ⟨code, user, hredeems.mono hsub⟩
          · apply sees_mono (sees_any _)
            rintro _ _ - - _ _ ts ⟨⟩ hg
            exact absurd hg hgrant
      | _ => exact sees_mono (sees_any _) fun _ _ _ _ _ _ _ hq => by cases hq

/-! ### Runs -/

/-- Login `t` has created the code, for a user that it is vouched for. -/
structure CreatedBy (data : AppState) (l : LoginRunLog) (code : AuthCode) (t : ℕ) (q : Request)
    (u : User) : Prop where
  start : .start t (.endpoint q) ∈ l
  creates : CreatesCode t code.id code l
  user : code.userId = u.id
  vouched : Vouched data u (seenBy t l) q
  carries : q.Carries code (seenBy t l)

section Runs

variable {data : AppState} {pages : LoginPages} {C : World → LoginRunLog → LoginRunEvent → Prop}
  {w₀ : World} {P : LoginRunPool}
  {t : ℕ}

/-- Whoever puts a code has started a login that carries it. -/
theorem Run.created_by (h : Run (LoginCall.prog data pages) sem C (init w₀) P) {k : String}
    {code : AuthCode} {x : Except ErrorResponse Unit}
    (hput : .op t (.cachePut .authCodes k (.authCode code)) x ∈ P.log) :
    k = code.id ∧ ∃ q u, CreatedBy data P.log code t q u := by
  obtain ⟨l₂, l, hl⟩ := List.append_of_mem hput
  have hlate : ∀ e ∈ l, e ∈ P.log := fun e he => by
    rw [hl]
    simp [he]
  have hseen : ∀ v ∈ seenBy t l, v ∈ seenBy t P.log := fun v hv =>
    mem_seenBy.mpr (hlate _ (mem_of_seenBy hv))
  obtain ⟨hcarried, -⟩ := (Run.promises (A := fun _ => Op.Possible) (G := CarriesStep)
    (F := fun _ r _ => ∀ b, r = .ok b → True) sees_carried
    (fun w _ _ _ _ _ w' _ hx _ => ⟨w, w', hx⟩) h).of_suffix ⟨l₂, hl.symm⟩
  obtain ⟨q, hq, hstep⟩ := (Run.happened_at h hl).step t _ _ rfl
  obtain ⟨-, r, c, u, rfl, hc, hid, -, hvouched⟩ := hstep.codes _ _ rfl
  cases hc
  obtain ⟨q', hq', hcarries⟩ := hcarried t _ _ rfl
  obtain rfl := h.start_unique (hlate _ hq) (hlate _ hq')
  obtain ⟨rfl, r', hr', hcarries⟩ := hcarries _ _ rfl
  cases hr'
  exact ⟨rfl, r, u, hlate _ hq, ⟨x, hput⟩, hid, hvouched.mono hseen, hcarries.mono hseen⟩

/-- A token request for a code that is answered has redeemed it. -/
theorem Run.redeems (h : Run (LoginCall.prog data pages) sem C (init w₀) P) {req : HttpRequest}
    {reqData : TokenRequest} {a : LoginResponse} {ts : TokenSet}
    (hgrant : reqData.grantType = "authorization_code")
    (hstart : .start t (.endpoint (.token req reqData)) ∈ P.log) (hdone : .done t (.ok a) ∈ P.log)
    (hanswer : a.answer = some (.token (.ok ts))) :
    ∃ code user, RedeemsFor data req reqData ts code user (seenBy t P.log) := by
  obtain ⟨l₂, l, hl⟩ := List.append_of_mem hdone
  have hlate : ∀ e ∈ l, e ∈ P.log := fun e he => by
    rw [hl]
    simp [he]
  obtain ⟨-, hposted⟩ := (Run.promises (A := fun _ => Op.Possible) (G := fun _ => Free)
    (F := fun q r tr => ∀ b, r = .ok b → TokenPost data q b tr) sees_tokenPost
    (fun w _ _ _ _ _ w' _ hx _ => ⟨w, w', hx⟩) h).of_suffix ⟨l₂, hl.symm⟩
  obtain ⟨q, hq, hpost⟩ := hposted t _ rfl
  obtain rfl := h.start_unique (hlate _ hq) hstart
  obtain ⟨code, user, hredeems⟩ := hpost a rfl req reqData ts rfl hgrant hanswer
  exact ⟨code, user, hredeems.mono fun v hv => mem_seenBy.mpr (hlate _ (mem_of_seenBy hv))⟩

/-- The code that has been redeemed was there at the beginning, or a login has created it. -/
theorem Run.redeemed_code (h : Run (LoginCall.prog data pages) sem C (init w₀) P)
    {req : HttpRequest} {reqData : TokenRequest} {ts : TokenSet} {code : AuthCode} {user : User}
    (hr : RedeemsFor data req reqData ts code user (seenBy t P.log)) :
    (∃ idx, reqData.code = some idx ∧ w₀.cache .authCodes idx = some (.authCode code)) ∨
      reqData.code = some code.id ∧ ∃ t₀ q u, CreatedBy data P.log code t₀ q u := by
  obtain ⟨idx, hidx, hfound⟩ := hr.found
  rcases Run.found_put h (mem_of_seenBy hfound) with hw | ⟨t₀, x, hput⟩
  · exact .inl ⟨idx, hidx, hw⟩
  · obtain ⟨rfl, q, u, hcreated⟩ := Run.created_by h hput
    exact .inr ⟨hidx, t₀, q, u, hcreated⟩

end Runs

end Rauthy

namespace Rauthy.RauthyClient

open Bincode Prog Pool

/-! ### The library -/

structure VerificationOptions where
  allowedAudiences : Option (List String)
  allowedIssuers : Option (List String)

/-- A claim that a principal needs, by the names of roles or groups. -/
inductive JwtClaim where
  | roles (value : String)
  | groups (value : String)

inductive ClaimMapping where
  | any
  | or (claims : List JwtClaim)
  | and (claims : List JwtClaim)
  | none

/-- `JwtClaim::matches` -/
def JwtClaim.holds (roles groups : List String) : JwtClaim → Bool
  | .roles value => roles.contains value
  | .groups value => groups.contains value

/-- `ClaimMapping::matches` -/
def ClaimMapping.holds (roles groups : List String) : ClaimMapping → Bool
  | .any => true
  | .or claims => claims.any (·.holds roles groups)
  | .and claims => claims.all (·.holds roles groups)
  | .none => false

structure OidcProviderConfig where
  authUrlBase : String
  clientId : String
  emailVerified : Bool
  tokenEndpoint : String
  redirectUri : String
  secret : Option String
  adminClaim : ClaimMapping
  userClaim : ClaimMapping
  verificationOptions : VerificationOptions

/-- `OidcProvider::config`: the configuration is set once, when the application starts. -/
def OidcProvider.config : Option OidcProviderConfig → Except RauthyError OidcProviderConfig
  | none => .error (.init "OidcProvider has not been initialized")
  | some c => .ok c

structure JwtAccessClaims where
  sub : Option String
  expiresAtTs : Option ℕ
  typ : JwtTokenType
  azp : String
  scope : String
  allowedOrigins : Option (List String)
  uid : Option String
  preferredUsername : Option String
  roles : Option (List String)
  groups : Option (List String)
  cnf : Option JktClaim
  custom : Option (List (String × String))
  deriving DecidableEq

structure JwtIdClaims where
  sub : Option String
  azp : String
  typ : JwtTokenType
  amr : List String
  authTime : Int
  atHash : Option String
  preferredUsername : String
  email : Option String
  emailVerified : Option Bool
  givenName : Option String
  familyName : Option String
  address : Option AddressClaim
  birthdate : Option String
  locale : Option String
  phone : Option String
  roles : List String
  groups : Option (List String)
  cnf : Option JktClaim
  custom : Option (List (String × String))
  webid : Option String
  deriving DecidableEq

/-- What `verify_token` returns: the registered claims that are looked at, and the others. -/
structure VerifiedClaims (α : Type) where
  subject : Option String
  expiresAt : Option ℕ
  nonce : Option String
  custom : α

/-- What is left to other libraries: the cipher, the texts of times and errors, what the key store
answers for a token, the keys, and the verification of tokens. -/
structure ClientLib (κ : Type) where
  /-- `ChaCha20Poly1305` with a key, a nonce and a text -/
  encrypt : Bytes → Bytes → Bytes → Option Bytes
  decrypt : Bytes → Bytes → Bytes → Option Bytes
  timeText : Int → String
  readTime : String → Option Int
  base64Error : String → String
  bincodeError : Bytes → String
  /-- `JwkPublicKey::get_for_token` -/
  getForToken : String → Except RauthyError JwkPublicKey
  rsaKey : JwkKeyPairAlg → Bytes → Bytes → Except String κ
  ed25519Key : Bytes → Except String κ
  verifyAccess : VerificationOptions → κ → String → Except String (VerifiedClaims JwtAccessClaims)
  verifyId : VerificationOptions → κ → String → Except String (VerifiedClaims JwtIdClaims)

section Library

variable {κ : Type} (lib : ClientLib κ)

/-! The cookie of a login -/

structure OidcCookieState where
  nonce : String
  pkceVerifier : String
  state : String
  timestamp : Int
  deriving DecidableEq

def oidcStateCookie : String := "OIDC_STATE"

inductive OidcCookieInsecure where
  | yes
  | no
  deriving DecidableEq

/-- `build_lax_cookie_300` -/
def buildLaxCookie300 (name value : String) (insecure : OidcCookieInsecure) : String :=
  if insecure ≠ .yes then
    name ++ "=" ++ value ++ "; Path=/; Secure; HttpOnly; SameSite=Lax; Max-Age=300"
  else name ++ "=" ++ value ++ "; Path=/; HttpOnly; SameSite=Lax; Max-Age=300"

/-- What `Key::from_slice` panics with. -/
def badKey (key : Bytes) : Fault RauthyError :=
  .panic ("assertion `left == right` failed\n  left: " ++ toString key.length ++ "\n right: 32")

namespace OidcCookieState

/-- `bincode::serialize` -/
def serialize (s : OidcCookieState) : Bytes :=
  encStr s.nonce ++ (encStr s.pkceVerifier ++ (encStr s.state ++ encStr (lib.timeText s.timestamp)))

def decFields : Dec OidcCookieState := fun b => do
  let (nonce, r) ← decStr b
  let (pkceVerifier, r) ← decStr r
  let (state, r) ← decStr r
  let (time, r) ← decStr r
  let timestamp ← lib.readTime time
  return ({ nonce, pkceVerifier, state, timestamp }, r)

/-- `bincode::deserialize` -/
def deserialize (b : Bytes) : Except (Fault RauthyError) OidcCookieState :=
  match decFields lib b with
  | some (s, _) => .ok s
  | none => .error (.err (.serde (lib.bincodeError b)))

/-- `encrypt` with the nonce that is drawn, which comes first -/
def encrypt (nonce plain key : Bytes) : Except (Fault RauthyError) Bytes :=
  if key.length ≠ 32 then .error (badKey key)
  else
    match lib.encrypt key nonce plain with
    | some ciphertext => .ok (nonce ++ ciphertext)
    | none => .error (.panic
        "called `Result::unwrap()` on an `Err` value: Encryption(\"aead::Error\")")

def decrypt (ciphertext key : Bytes) : Except (Fault RauthyError) Bytes :=
  if ciphertext.length < 12 then
    .error (.err (.encryption "Invalid ciphertext for decryption"))
  else if key.length ≠ 32 then .error (badKey key)
  else
    match lib.decrypt key (ciphertext.take 12) (ciphertext.drop 12) with
    | some plain => .ok plain
    | none => .error (.err (.encryption "aead::Error"))

def toEncryptedCookieValue (s : OidcCookieState) (nonce key : Bytes) :
    Except (Fault RauthyError) String := do
  let enc ← encrypt lib nonce (s.serialize lib) key
  return String.ofList (Base64.encode Base64.standard true enc)

def fromCookieValue (value : String) (key : Bytes) : Except (Fault RauthyError) OidcCookieState :=
  match Base64.decode Base64.standard true value.toList with
  | none => .error (.err (.base64 (lib.base64Error value)))
  | some enc => do
      let dec ← decrypt lib enc key
      deserialize lib dec

end OidcCookieState

/-! Tokens -/

/-- The branches of `validate_jwt!` for the RSA algorithms, which differ by their names only. -/
def rsaPublicKey (alg : JwkKeyPairAlg) (pubkey : JwkPublicKey) : Except RauthyError κ :=
  match pubkey.n, pubkey.e with
  | none, _ => .error (.jwk ("Invalid 'n' for " ++ alg.asStr ++ " key"))
  | some _, none => .error (.jwk ("Invalid 'e' for " ++ alg.asStr ++ " key"))
  | some n, some e =>
      match lib.rsaKey alg (Text.asBytes n) (Text.asBytes e) with
      | .ok pk => .ok pk
      | .error err => .error
          (.jwk ("Cannot build " ++ alg.asStr ++ " key from public key components: " ++ err))

/-- The branch of `validate_jwt!` for EdDSA. -/
def edDsaPublicKey (pubkey : JwkPublicKey) : Except RauthyError κ :=
  match pubkey.xBytes with
  | none => .error (.jwk "Invalid 'x' for EdDSA key")
  | some bytes =>
      match lib.ed25519Key bytes with
      | .ok pk => .ok pk
      | .error err => .error (.jwk ("Cannot build EdDSA key from public key bytes: " ++ err))

def publicKey (pubkey : JwkPublicKey) : Except RauthyError κ :=
  match pubkey.alg with
  | .edDSA => edDsaPublicKey lib pubkey
  | alg => rsaPublicKey lib alg pubkey

/-- `validate_jwt!` -/
def validateJwt {α : Type} (verify : κ → String → Except String (VerifiedClaims α))
    (pubkey : JwkPublicKey) (token : String) : Except RauthyError (VerifiedClaims α) := do
  let pk ← publicKey lib pubkey
  match verify pk token with
  | .ok claims => .ok claims
  | .error err => .error (.token err)

/-- `JwtAccessClaims::from_token_validated` -/
def JwtAccessClaims.fromTokenValidated (cfg : Option OidcProviderConfig) (token : String) :
    Except RauthyError JwtAccessClaims := do
  let config ← OidcProvider.config cfg
  let pubkey ← lib.getForToken token
  let claims ← validateJwt lib (lib.verifyAccess config.verificationOptions) pubkey token
  if claims.custom.typ ≠ .bearer then .error (.token "Must provide a Bearer token")
  else return { claims.custom with sub := claims.subject, expiresAtTs := claims.expiresAt }

/-- `JwtIdClaims::from_token_validated` -/
def JwtIdClaims.fromTokenValidated (cfg : Option OidcProviderConfig) (token nonce : String) :
    Except RauthyError JwtIdClaims := do
  let config ← OidcProvider.config cfg
  let pubkey ← lib.getForToken token
  let claims ← validateJwt lib (lib.verifyId config.verificationOptions) pubkey token
  if claims.custom.typ ≠ .id then .error (.token "Must provide an id token")
  else if config.emailVerified = true ∧ claims.custom.emailVerified ≠ some true then
    .error (.invalidClaims "'email_verified' is missing or false")
  else if claims.nonce ≠ some nonce then .error (.invalidClaims "'nonce' is not correct")
  else return { claims.custom with sub := claims.subject }

/-- The user that an application has authenticated. -/
structure PrincipalOidc where
  id : String
  expiresAtTs : Option ℕ
  preferredUsername : Option String
  roles : List String
  groups : List String
  scope : String
  isAdmin : Bool
  isUser : Bool
  customClaims : Option (List (String × String))

/-- `PrincipalOidc::from_token_validated` -/
def PrincipalOidc.fromTokenValidated (cfg : Option OidcProviderConfig) (token : String) :
    Except RauthyError PrincipalOidc := do
  let claims ← JwtAccessClaims.fromTokenValidated lib cfg token
  let config ← OidcProvider.config cfg
  match claims.sub with
  | none => .error (.invalidClaims "'sub' claim is mandatory")
  | some id =>
      let roles := claims.roles.getD []
      let groups := claims.groups.getD []
      return { id, expiresAtTs := claims.expiresAtTs, preferredUsername := claims.preferredUsername,
               roles, groups, scope := claims.scope,
               isAdmin := config.adminClaim.holds roles groups,
               isUser := config.userClaim.holds roles groups, customClaims := claims.custom }

/-! The callback -/

structure OidcCallbackParams where
  code : String
  state : String

structure OidcCodeRequestParams where
  clientId : String
  clientSecret : Option String
  code : String
  codeVerifier : String
  grantType : String
  redirectUri : String

namespace OidcCodeRequestParams

/-- `try_new` -/
def tryNew (cfg : Option OidcProviderConfig) (code codeVerifier redirectUri : String) :
    Except RauthyError OidcCodeRequestParams := do
  let cfg ← OidcProvider.config cfg
  return { clientId := cfg.clientId, clientSecret := cfg.secret, code, codeVerifier,
           grantType := "authorization_code", redirectUri }

/-- The form as the token endpoint reads it. -/
def form (r : OidcCodeRequestParams) : TokenRequest where
  grantType := r.grantType
  code := some r.code
  redirectUri := some r.redirectUri
  clientId := some r.clientId
  clientSecret := r.clientSecret
  codeVerifier := some r.codeVerifier
  deviceCode := none
  username := none
  password := none
  refreshToken := none

end OidcCodeRequestParams

structure OidcTokenSet where
  accessToken : String
  tokenType : Option String
  idToken : Option String
  expiresIn : Int
  refreshToken : Option String
  deriving DecidableEq

/-- What comes back from the token endpoint: an error of the connection, a status from 300 on with
the text of its body, or a body that may be a token set. -/
inductive TokenResponse where
  | failed (msg : String)
  | status (body : Option String)
  | json (ts : Option OidcTokenSet)

/-- `oidc_callback` of `handler/mod.rs` -/
def oidcCallback (cfg : Option OidcProviderConfig)
    (post : String → OidcCodeRequestParams → TokenResponse) (cookieState : OidcCookieState)
    (params : OidcCallbackParams) (insecure : OidcCookieInsecure) :
    Except RauthyError (String × OidcTokenSet × JwtIdClaims) :=
  if params.state ≠ cookieState.state then .error (.badRequest "Bad state")
  else do
    let config ← OidcProvider.config cfg
    let reqData ← OidcCodeRequestParams.tryNew cfg params.code cookieState.pkceVerifier
      config.redirectUri
    match post config.tokenEndpoint reqData with
    | .failed msg => .error (.request msg)
    | .status body => .error (.provider (body.getD "Internal Error - Bad response status"))
    | .json none => .error (.provider "Internal Error - Deserializing OIDC response")
    | .json (some ts) => do
        let accessClaims ← JwtAccessClaims.fromTokenValidated lib cfg ts.accessToken
        match ts.idToken with
        | none => .error (.provider "ID token is missing")
        | some idToken => do
            let idClaims ← JwtIdClaims.fromTokenValidated lib cfg idToken cookieState.nonce
            if accessClaims.sub = none ∨ accessClaims.sub ≠ idClaims.sub then
              .error (.invalidClaims "Invalid `sub` claims")
            else return (buildLaxCookie300 oidcStateCookie "" insecure, ts, idClaims)

/-- The callbacks of `handler/axum.rs` and `handler/actix_web.rs`, with the value of the cookie -/
def callbackHandler (cfg : Option OidcProviderConfig)
    (post : String → OidcCodeRequestParams → TokenResponse) (key : Bytes) (cookie : Option String)
    (params : OidcCallbackParams) (insecure : OidcCookieInsecure) :
    Except (Fault RauthyError) (String × OidcTokenSet × JwtIdClaims) :=
  match cookie with
  | none => .error (.err (.request "Request has expired"))
  | some value => do
      let cookieState ← OidcCookieState.fromCookieValue lib value key
      match oidcCallback lib cfg post cookieState params insecure with
      | .ok r => .ok r
      | .error e => .error (.err e)

end Library

/-! ### Steps that succeed -/

theorem except_bind {ε α β : Type} {x : Except ε α} {f : α → Except ε β} {a : α} {b : β}
    (hx : x = .ok a) (hf : f a = .ok b) : (x >>= f) = .ok b := by
  subst hx
  exact hf

theorem except_bind_ok {ε α β : Type} {x : Except ε α} {f : α → Except ε β} {b : β}
    (h : (x >>= f) = .ok b) : ∃ a, x = .ok a ∧ f a = .ok b := by
  cases x with
  | error e => cases h
  | ok a => exact ⟨a, rfl, h⟩

/-! ### What is relied on -/

/-- The cipher is inverted by its key and nonce, and a time is read back from its text. -/
structure ClientLib.Sound {κ : Type} (lib : ClientLib κ) : Prop where
  decrypt : ∀ key nonce plain c, lib.encrypt key nonce plain = some c →
    lib.decrypt key nonce c = some plain
  readTime : ∀ t, lib.readTime (lib.timeText t) = some t

/-- A token that is verified has the subject and the nonce that the server has signed. -/
structure ClientLib.Reads {κ : Type} (lib : ClientLib κ) (data : AppState) : Prop where
  access : ∀ opts pk kp claims token c, data.signJwt kp (.access claims) = .ok token →
    lib.verifyAccess opts pk token = .ok c → c.subject = claims.subject
  id : ∀ opts pk kp claims token c, data.signJwt kp (.id claims) = .ok token →
    lib.verifyId opts pk token = .ok c → c.subject = claims.subject ∧ c.nonce = claims.nonce

/-- The lengths of the texts are numbers of 64 bits. -/
structure OidcCookieState.Addressable {κ : Type} (lib : ClientLib κ) (s : OidcCookieState) :
    Prop where
  nonce : (Text.asBytes s.nonce).length < 256 ^ 8
  pkceVerifier : (Text.asBytes s.pkceVerifier).length < 256 ^ 8
  state : (Text.asBytes s.state).length < 256 ^ 8
  time : (Text.asBytes (lib.timeText s.timestamp)).length < 256 ^ 8

section Cookies

variable {κ : Type} {lib : ClientLib κ} {s : OidcCookieState} {iv key : Bytes} {value : String}

theorem decFields_serialize (hlib : lib.Sound) (hs : s.Addressable lib) :
    OidcCookieState.decFields lib (s.serialize lib) = some (s, []) := by
  have hlast := decStr_encStr hs.time []
  rw [List.append_nil] at hlast
  unfold OidcCookieState.decFields OidcCookieState.serialize
  rw [decStr_encStr hs.nonce]
  simp only [Option.bind_eq_bind, Option.bind_some]
  rw [decStr_encStr hs.pkceVerifier]
  simp only [Option.bind_some]
  rw [decStr_encStr hs.state]
  simp only [Option.bind_some]
  rw [hlast]
  simp only [Option.bind_some]
  rw [hlib.readTime]
  rfl

theorem decrypt_encrypt (hlib : lib.Sound) (hiv : iv.length = 12) {plain enc : Bytes}
    (h : OidcCookieState.encrypt lib iv plain key = .ok enc) :
    OidcCookieState.decrypt lib enc key = .ok plain := by
  unfold OidcCookieState.encrypt at h
  split at h
  · cases h
  · next hkey =>
    split at h
    · next c hc =>
      cases h
      have hlen : ¬ (iv ++ c).length < 12 := by
        rw [List.length_append, hiv]
        omega
      rw [OidcCookieState.decrypt, if_neg hlen, if_neg hkey, ← hiv, List.take_left,
        List.drop_left, hlib.decrypt _ _ _ _ hc]
    · cases h

theorem toEncryptedCookieValue_ok (h : s.toEncryptedCookieValue lib iv key = .ok value) :
    ∃ enc, OidcCookieState.encrypt lib iv (s.serialize lib) key = .ok enc ∧
      value = String.ofList (Base64.encode Base64.standard true enc) := by
  obtain ⟨enc, henc, hret⟩ := except_bind_ok h
  exact ⟨enc, henc, (Except.ok.inj hret).symm⟩

/-- **A sealed state is read back**, whatever the nonce that the cipher has drawn. -/
theorem state_cookie_kept (hlib : lib.Sound) (hiv : iv.length = 12) (hs : s.Addressable lib)
    (hvalue : s.toEncryptedCookieValue lib iv key = .ok value) :
    OidcCookieState.fromCookieValue lib value key = .ok s := by
  obtain ⟨enc, henc, rfl⟩ := toEncryptedCookieValue_ok hvalue
  have hb64 : Base64.decode Base64.standard true
      (String.ofList (Base64.encode Base64.standard true enc)).toList = some enc := by
    rw [String.toList_ofList]
    exact Base64.decode_encode true enc
  have hdec : OidcCookieState.deserialize lib (s.serialize lib) = .ok s := by
    rw [OidcCookieState.deserialize, decFields_serialize hlib hs]
  unfold OidcCookieState.fromCookieValue
  simp only [hb64]
  exact except_bind (decrypt_encrypt hlib hiv henc) hdec

end Cookies

section Callback

variable {κ : Type} {lib : ClientLib κ} {cfg : OidcProviderConfig} {token : String}

theorem validateJwt_ok {α : Type} {verify : κ → String → Except String (VerifiedClaims α)}
    {pubkey : JwkPublicKey} {claims : VerifiedClaims α}
    (h : validateJwt lib verify pubkey token = .ok claims) :
    ∃ pk, verify pk token = .ok claims := by
  obtain ⟨pk, -, h⟩ := except_bind_ok h
  split at h
  · next c hc =>
    cases h
    exact ⟨pk, hc⟩
  · cases h

theorem JwtAccessClaims.fromTokenValidated_ok {c : JwtAccessClaims}
    (h : JwtAccessClaims.fromTokenValidated lib (some cfg) token = .ok c) :
    ∃ pk claims, lib.verifyAccess cfg.verificationOptions pk token = .ok claims ∧
      c.sub = claims.subject := by
  obtain ⟨config, hconfig, h⟩ := except_bind_ok h
  cases hconfig
  obtain ⟨pubkey, -, h⟩ := except_bind_ok h
  obtain ⟨claims, hclaims, h⟩ := except_bind_ok h
  obtain ⟨pk, hpk⟩ := validateJwt_ok hclaims
  split at h
  · cases h
  · cases h
    exact ⟨pk, claims, hpk, rfl⟩

theorem JwtIdClaims.fromTokenValidated_ok {nonce : String} {c : JwtIdClaims}
    (h : JwtIdClaims.fromTokenValidated lib (some cfg) token nonce = .ok c) :
    ∃ pk claims, lib.verifyId cfg.verificationOptions pk token = .ok claims ∧
      c.sub = claims.subject ∧ claims.nonce = some nonce := by
  obtain ⟨config, hconfig, h⟩ := except_bind_ok h
  cases hconfig
  obtain ⟨pubkey, -, h⟩ := except_bind_ok h
  obtain ⟨claims, hclaims, h⟩ := except_bind_ok h
  obtain ⟨pk, hpk⟩ := validateJwt_ok hclaims
  split at h
  · cases h
  · split at h
    · cases h
    · split at h
      · cases h
      · next hnonce =>
        cases h
        exact ⟨pk, claims, hpk, rfl, not_not.mp hnonce⟩

theorem PrincipalOidc.fromTokenValidated_ok {p : PrincipalOidc}
    (h : PrincipalOidc.fromTokenValidated lib (some cfg) token = .ok p) :
    ∃ c, JwtAccessClaims.fromTokenValidated lib (some cfg) token = .ok c ∧ c.sub = some p.id := by
  obtain ⟨c, hc, h⟩ := except_bind_ok h
  obtain ⟨config, hconfig, h⟩ := except_bind_ok h
  cases hconfig
  split at h
  · cases h
  · next id hid =>
    cases h
    exact ⟨c, hc, hid⟩

/-- The request of the callback. -/
def codeRequest (cfg : OidcProviderConfig) (cookieState : OidcCookieState)
    (params : OidcCallbackParams) : OidcCodeRequestParams where
  clientId := cfg.clientId
  clientSecret := cfg.secret
  code := params.code
  codeVerifier := cookieState.pkceVerifier
  grantType := "authorization_code"
  redirectUri := cfg.redirectUri

variable {post : String → OidcCodeRequestParams → TokenResponse} {cookieState : OidcCookieState}
  {params : OidcCallbackParams} {insecure : OidcCookieInsecure}
  {r : String × OidcTokenSet × JwtIdClaims}

theorem oidcCallback_ok {ts : OidcTokenSet}
    (h : oidcCallback lib (some cfg) post cookieState params insecure = .ok r)
    (hpost : post cfg.tokenEndpoint (codeRequest cfg cookieState params) = .json (some ts)) :
    params.state = cookieState.state ∧ ∃ access idToken,
      JwtAccessClaims.fromTokenValidated lib (some cfg) ts.accessToken = .ok access ∧
      ts.idToken = some idToken ∧
      JwtIdClaims.fromTokenValidated lib (some cfg) idToken cookieState.nonce = .ok r.2.2 ∧
      access.sub = r.2.2.sub ∧ r.2.1 = ts := by
  unfold oidcCallback at h
  split at h
  · cases h
  · next hstate =>
    rw [not_not] at hstate
    refine ⟨hstate, ?_⟩
    obtain ⟨config, hconfig, h⟩ := except_bind_ok h
    cases hconfig
    obtain ⟨reqData, hreq, h⟩ := except_bind_ok h
    obtain rfl : reqData = codeRequest cfg cookieState params := (Except.ok.inj hreq).symm
    rw [hpost] at h
    obtain ⟨access, haccess, h⟩ := except_bind_ok h
    split at h
    · cases h
    · next idToken hid =>
      obtain ⟨idClaims, hidClaims, h⟩ := except_bind_ok h
      split at h
      · cases h
      · next hsub =>
        cases h
        rw [not_or, not_not] at hsub
        exact ⟨access, idToken, haccess, hid, hidClaims, hsub.2, rfl⟩

end Callback

/-! ### Server and client -/

def tokenTypeText : JwtTokenType → String
  | .bearer => "Bearer"
  | .dpop => "DPoP"
  | .id => "Id"
  | .refresh => "Refresh"

/-- The token set of the server, as the library reads it. -/
def OidcTokenSet.of (ts : TokenSet) : OidcTokenSet where
  accessToken := ts.accessToken
  tokenType := some (tokenTypeText ts.tokenType)
  idToken := ts.idToken
  expiresIn := ts.expiresIn
  refreshToken := ts.refreshToken

/-- The code that comes back belongs to the login that the state was drawn for: its nonce is the one
of the state, its challenge fits the verifier, and `user` is found for it.  It was there at the
beginning, or it was created by a login that has asked for this nonce and this challenge. -/
structure OwnCode (data : AppState) (cfg : OidcProviderConfig) (cookieState : OidcCookieState)
    (params : OidcCallbackParams) (w₀ : World) (l : LoginRunLog) (t : ℕ) (code : AuthCode)
    (user : User) : Prop where
  nonce : code.nonce = some cookieState.nonce
  client : code.clientId = cfg.clientId
  fits : ∀ challenge, code.challenge = some challenge → ∃ method,
    code.challengeMethod = some method ∧
      challenge = challengeOf data method cookieState.pkceVerifier
  user : FindsUser code.userId user (seenBy t l)
  origin : w₀.cache .authCodes params.code = some (.authCode code) ∨
    params.code = code.id ∧ ∃ t₀ q u, CreatedBy data l code t₀ q u

section System

variable {κ : Type} {lib : ClientLib κ} {cfg : OidcProviderConfig} {data : AppState}
  {pages : LoginPages} {C : World → LoginRunLog → LoginRunEvent → Prop} {w₀ : World}
  {P : LoginRunPool} {post : String → OidcCodeRequestParams → TokenResponse}
  {cookieState : OidcCookieState} {params : OidcCallbackParams} {insecure : OidcCookieInsecure}
  {r : String × OidcTokenSet × JwtIdClaims} {t : ℕ} {req : HttpRequest} {a : LoginResponse}
  {ts : TokenSet} {iv key : Bytes} {value : String}

/-- The tokens of a code, with what the library reads in them. -/
theorem oidcCallback_owns (hreads : lib.Reads data) {reqData : TokenRequest} {code : AuthCode}
    {user : User} {tr : List (Seen Op Op.Res)} (hr : RedeemsFor data req reqData ts code user tr)
    (hpost : post cfg.tokenEndpoint (codeRequest cfg cookieState params) = .json (some (.of ts)))
    (h : oidcCallback lib (some cfg) post cookieState params insecure = .ok r) :
    code.nonce = some cookieState.nonce ∧ r.2.2.sub = some user.id ∧
      ∀ p, PrincipalOidc.fromTokenValidated lib (some cfg) r.2.1.accessToken = .ok p →
        p.id = user.id := by
  obtain ⟨-, access, idToken, haccess, hid, hidClaims, hsub, hts⟩ := oidcCallback_ok h hpost
  obtain ⟨client, fp, hfor⟩ := hr.tokens
  -- the id token names the user and the nonce of the code
  obtain ⟨token, kp, claims, htoken, hsign, hsubject, hnonce, -⟩ := hfor.id
  obtain rfl : token = idToken := Option.some.inj (htoken.symm.trans hid)
  obtain ⟨pk, verified, hverify, hsub', hnonce'⟩ := JwtIdClaims.fromTokenValidated_ok hidClaims
  obtain ⟨hs, hn⟩ := hreads.id _ _ _ _ _ _ hsign hverify
  refine ⟨?_, ?_, fun p hp => ?_⟩
  · rw [← hnonce, ← hn, hnonce']
  · rw [hsub', hs, hsubject]
  · -- and so does the access token
    obtain ⟨kp', accessClaims, hsign', hsubject', -⟩ := hfor.access
    obtain ⟨c, hc, hcsub⟩ := PrincipalOidc.fromTokenValidated_ok hp
    rw [hts] at hc
    obtain ⟨pk', verified', hverify', hc'⟩ := JwtAccessClaims.fromTokenValidated_ok hc
    rw [hc', hreads.access _ _ _ _ _ _ hsign' hverify', hsubject'] at hcsub
    exact (Option.some.inj hcsub).symm

/-- **Only the own login ends in the callback.**  Whatever code and state come back with a cookie
that the library has set, and whatever requests the server works on meanwhile: if the callback
succeeds, the state is that of the cookie, the code comes from a login with the nonce and the
challenge of the cookie, and the user of this login is the one that the application sees. -/
theorem callback_own_login (hlib : lib.Sound) (hreads : lib.Reads data) (hiv : iv.length = 12)
    (hs : cookieState.Addressable lib)
    (hcookie : cookieState.toEncryptedCookieValue lib iv key = .ok value)
    (hrun : Run (LoginCall.prog data pages) sem C (init w₀) P)
    (hstart : .start t (.endpoint (.token req (codeRequest cfg cookieState params).form)) ∈ P.log)
    (hreq : req.authorization = none) (hdone : .done t (.ok a) ∈ P.log)
    (hanswer : a.answer = some (.token (.ok ts)))
    (hpost : post cfg.tokenEndpoint (codeRequest cfg cookieState params) = .json (some (.of ts)))
    (h : callbackHandler lib (some cfg) post key (some value) params insecure = .ok r) :
    params.state = cookieState.state ∧ ∃ code user,
      OwnCode data cfg cookieState params w₀ P.log t code user ∧ r.2.2.sub = some user.id ∧
      ∀ p, PrincipalOidc.fromTokenValidated lib (some cfg) r.2.1.accessToken = .ok p →
        p.id = user.id := by
  have hcallback : oidcCallback lib (some cfg) post cookieState params insecure = .ok r := by
    obtain ⟨s, hs', h⟩ := except_bind_ok h
    obtain rfl : cookieState = s :=
      Except.ok.inj ((state_cookie_kept hlib hiv hs hcookie).symm.trans hs')
    split at h
    · next r' hr' =>
      cases h
      exact hr'
    · cases h
  obtain ⟨code, user, hr⟩ := Run.redeems hrun rfl hstart hdone hanswer
  obtain ⟨hnonce, hsub, hprincipal⟩ := oidcCallback_owns hreads hr hpost hcallback
  refine ⟨(oidcCallback_ok hcallback hpost).1, code, user, ⟨hnonce, ?_, ?_, hr.owner, ?_⟩, hsub,
    hprincipal⟩
  · obtain ⟨secret, hclient⟩ := hr.client
    rw [TokenRequest.tryGetClientIdSecret, hreq] at hclient
    exact (Prod.mk.inj (Except.ok.inj hclient)).1.symm
  · intro challenge hc
    obtain ⟨verifier, method, hv, hm, hfits⟩ := hr.fits challenge hc
    obtain rfl : cookieState.pkceVerifier = verifier := Option.some.inj hv
    exact ⟨method, hm, hfits⟩
  · rcases Run.redeemed_code hrun hr with ⟨idx, hidx, hw⟩ | ⟨hidx, hcreated⟩
    · obtain rfl : params.code = idx := Option.some.inj hidx
      exact .inl hw
    · exact .inr ⟨Option.some.inj hidx, hcreated⟩

end System

/-! A login of alice -/

def drawnState : OidcCookieState where
  nonce := "nonce"
  pkceVerifier := "verifier"
  state := "state"
  timestamp := 100

def aliceConfig : OidcProviderConfig where
  authUrlBase := "https://localhost/auth/v1/oidc/authorize?client_id=app"
  clientId := "app"
  emailVerified := false
  tokenEndpoint := "https://localhost/auth/v1/oidc/token"
  redirectUri := "https%3A%2F%2Fapp%2Fcallback"
  secret := none
  adminClaim := .or [.roles "admin"]
  userClaim := .any
  verificationOptions := ⟨some ["app"], none⟩

def aliceIdClaims : JwtIdClaims where
  sub := some "alice"
  azp := "app"
  typ := .id
  amr := ["pwd"]
  authTime := 100
  atHash := none
  preferredUsername := "alice@localhost"
  email := none
  emailVerified := none
  givenName := none
  familyName := none
  address := none
  birthdate := none
  locale := none
  phone := none
  roles := ["admin"]
  groups := none
  cnf := none
  custom := none
  webid := none

/-- The time as so many letters, with a sign. -/
def letters (t : Int) : String :=
  String.ofList ((if t < 0 then ['-'] else []) ++ List.replicate t.natAbs 'x')

def readLetters (s : String) : Option Int :=
  match s.toList with
  | '-' :: cs => some (-cs.length)
  | cs => some cs.length

/-- An access token is its subject, and alice's id tokens are their nonces. -/
def aliceLib : ClientLib Unit where
  encrypt _ _ plain := some plain
  decrypt _ _ c := some c
  timeText := letters
  readTime := readLetters
  base64Error := id
  bincodeError _ := ""
  getForToken _ := .ok ⟨.okp, .edDSA, "kid", none, none, none, none, some []⟩
  rsaKey _ _ _ := .error "RSA"
  ed25519Key _ := .ok ()
  verifyAccess _ _ token := .ok ⟨some token, some 1900, none,
    { sub := none, expiresAtTs := none, typ := .bearer, azp := "app", scope := "openid"
      allowedOrigins := none, uid := none, preferredUsername := none, roles := some ["admin"]
      groups := none, cnf := none, custom := none }⟩
  verifyId _ _ token := .ok ⟨some "alice", some 1900, some token,
    { aliceIdClaims with sub := none }⟩

def aliceState : AppState := { sampleState with
  signJwt := fun _ claims => match claims with
    | .access c => match c.subject with
        | some sub => .ok sub
        | none => .error ⟨.internal, "key"⟩
    | .id c => match c.nonce with
        | some nonce =>
            if c.subject = some "alice" then .ok nonce else .error ⟨.internal, "key"⟩
        | none => .error ⟨.internal, "key"⟩
    | .refresh _ _ => .error ⟨.internal, "key"⟩ }

theorem readLetters_letters (t : Int) : readLetters (letters t) = some t := by
  unfold letters readLetters
  rw [String.toList_ofList]
  by_cases ht : t < 0
  · rw [if_pos ht]
    show some (-((List.replicate t.natAbs 'x').length : Int)) = some t
    rw [List.length_replicate]
    congr 1
    omega
  · rw [if_neg ht, List.nil_append]
    rcases hn : t.natAbs with - | n
    · show some ((0 : ℕ) : Int) = some t
      congr 1
      omega
    · show some (((List.replicate (n + 1) 'x').length : ℕ) : Int) = some t
      rw [List.length_replicate]
      congr 1
      omega

theorem sound_aliceLib : aliceLib.Sound where
  decrypt key nonce plain c h := by
    cases h
    rfl
  readTime := readLetters_letters

theorem reads_aliceLib : aliceLib.Reads aliceState where
  access opts pk kp claims token c hsign hverify := by
    cases hverify
    rcases hsub : claims.subject with - | sub
    · simp [aliceState, hsub] at hsign
    · simp only [aliceState, hsub] at hsign
      exact congrArg some (Except.ok.inj hsign).symm
  id opts pk kp claims token c hsign hverify := by
    cases hverify
    rcases hnonce : claims.nonce with - | nonce
    · simp [aliceState, hnonce] at hsign
    · by_cases hsub : claims.subject = some "alice"
      · simp only [aliceState, hnonce, if_pos hsub] at hsign
        exact ⟨hsub.symm, congrArg some (Except.ok.inj hsign).symm⟩
      · simp [aliceState, hnonce, hsub] at hsign

/-- Alice has this session at the server. -/
def aliceWorld : World where
  clock := 100000
  issued := []
  db _ := []
  cache
    | .sessions, "session_s" => some (.session loggedInSession)
    | .c12hr, "client_app" => some (.client sampleClient)
    | .c12hr, "jwk_latest_EdDSA" => some (.jwkKeyPair ⟨"kid", .edDSA, []⟩)
    | .users, "users__alice" => some (.user sampleUser)
    | _, _ => none

/-- The browser follows the location, and the server asks for no password. -/
def followedLogin : LoginCall :=
  .endpoint (.authorizeRefresh formReq { (default : LoginRefreshRequest) with
    clientId := "app", redirectUri := "https://app/callback", state := some "state"
    nonce := some "nonce", codeChallenge := some "verifier", codeChallengeMethod := some "S256" })

def redeemedCode : Request :=
  .token (default : HttpRequest) (codeRequest aliceConfig drawnState ⟨codeId, "state"⟩).form

def loginMoves : List (Move LoginCall Choice) :=
  .start 0 followedLogin :: answeredMoves 0 [.ok, .time 100000, .time 100000, .ok, .ok,
    .rand codeId, .time 100000, .ok] ++ [.done 0] ++
  .start 1 (.endpoint redeemedCode) :: answeredMoves 1 [.ok, .ok, .time 100000, .ok,
    .time 100000, .ok, .time 100000, .time 100000, .ok, .ok, .time 100000, .ok, .ok, .ok] ++
  [.done 1]

def aliceTokens : TokenSet where
  accessToken := "alice"
  tokenType := .bearer
  idToken := some "nonce"
  expiresIn := 1800
  refreshToken := none

/-- Request 1 is the one of the callback, and it is answered with alice's tokens. -/
def redeemsCode (l : LoginRunLog) : Bool :=
  (match Log.startOf 1 l with
    | some (.endpoint r) => decide (r = redeemedCode)
    | _ => false) &&
  decide (Log.doneOf 1 l = some (.ok ⟨some (.token (.ok aliceTokens)), none⟩))

theorem redeemsCode_of {l : LoginRunLog} (h : redeemsCode l = true) :
    .start 1 (.endpoint redeemedCode) ∈ l ∧
      .done 1 (.ok ⟨some (.token (.ok aliceTokens)), none⟩) ∈ l := by
  obtain ⟨hstart, hdone⟩ := Bool.and_eq_true_iff.mp h
  refine ⟨?_, Log.mem_of_doneOf (of_decide_eq_true hdone)⟩
  split at hstart
  · next r hr =>
    obtain rfl := of_decide_eq_true hstart
    exact Log.mem_of_startOf hr
  · cases hstart

theorem callback_own_login_alice : ∃ P : LoginRunPool, Run (LoginCall.prog aliceState samplePages)
    sem (fun _ _ _ => True) (init aliceWorld) P ∧
    .done 1 (.ok ⟨some (.token (.ok aliceTokens)), none⟩) ∈ P.log ∧ ∃ code user,
      OwnCode aliceState aliceConfig drawnState ⟨codeId, "state"⟩ aliceWorld P.log 1 code user ∧
      aliceIdClaims.sub = some user.id := by
  obtain ⟨P, hrun, hlog⟩ := exists_run_of_moves (C := fun _ _ _ => True)
    (LoginCall.prog aliceState samplePages) Op.run (fun _ _ _ => true) aliceWorld loginMoves
    (fun P => redeemsCode P.log) (by decide +kernel) (fun _ _ _ _ => trivial)
  obtain ⟨hstart, hdone⟩ := redeemsCode_of hlog
  let zeros (n : ℕ) : Bytes := List.replicate n 0
  obtain ⟨value, hcookie⟩ : ∃ value,
      drawnState.toEncryptedCookieValue aliceLib (zeros 12) (zeros 32) = .ok value :=
    ⟨_, rfl⟩
  have hs : drawnState.Addressable aliceLib :=
    ⟨by decide +kernel, by decide +kernel, by decide +kernel, by decide +kernel⟩
  have hcallback : callbackHandler aliceLib (some aliceConfig)
      (fun _ _ => .json (some (.of aliceTokens))) (zeros 32) (some value) ⟨codeId, "state"⟩ .no =
        .ok (buildLaxCookie300 oidcStateCookie "" .no, .of aliceTokens, aliceIdClaims) := by
    have hread := state_cookie_kept sound_aliceLib (by rfl) hs hcookie
    exact except_bind hread (by decide +kernel)
  obtain ⟨-, code, user, hown, hsub, -⟩ := callback_own_login sound_aliceLib reads_aliceLib
    (by rfl) hs hcookie hrun hstart rfl hdone rfl rfl hcallback
  exact ⟨P, hrun, hdone, code, user, hown, hsub⟩

end Rauthy.RauthyClient
