/-
Rauthy/Logout.lean

The two endpoints of the logout, `GET` and `POST /oidc/logout`, on the same query.  The first
checks the `id_token_hint` and that the `post_logout_redirect_uri` is one of the client that the
token was issued for; the second ends the session and redirects, without any of these checks.

Main results:
  * `getLogout_accepts_iff`: what the first endpoint accepts;
  * `post_logout_iff`: when the redirect of the second is one that the first accepts.
-/
import Rauthy.Clients
import Rauthy.Keys
import Rauthy.Principal
import Rauthy.Revocation

namespace Rauthy

open Prog

structure LogoutRequest where
  idTokenHint : Option String
  postLogoutRedirectUri : Option String
  state : Option String
  deriving DecidableEq, Inhabited

/-- The page of the logout: `action` makes it log out without asking. -/
structure LogoutHtml where
  csrfToken : String
  action : Bool
  deriving DecidableEq, Inhabited

inductive LogoutAnswer where
  | page (html : LogoutHtml)
  /-- a redirect to the root page -/
  | root
  deriving DecidableEq, Inhabited

/-- `validate_jwt!` for id tokens, at a time in seconds -/
abbrev VerifyIdToken : Type :=
  JwkKeyPair → String → Int → Except ErrorResponse (JWTClaims JwtIdClaims)

/-- `validate_token::<JwtIdClaims>` -/
def validateIdToken (data : AppState) (verify : VerifyIdToken) (token : String) :
    M ErrorResponse (JWTClaims JwtIdClaims) := do
  let kid ← answer (data.kidFromToken token)
  let kp ← JwkKeyPair.find data kid
  let now ← unixTimestamp
  answer (verify kp token now)

/-- The check of the target; the URIs match as redirect URIs do. -/
def checkPostLogoutUri (azp : String) : Option String → M ErrorResponse Unit
  | none => return ()
  | some target => do
      let client ← Client.find azp
      let uris ← okOr (err .badRequest "Given 'post_logout_redirect_uri' is not allowed")
        client.getPostLogoutUris
      throwIf (uris.any (Client.matchesRedirectUri · target) = false)
        (err .badRequest "Given 'post_logout_redirect_uri' is not allowed")

/-- `auth::logout` -/
def logout (data : AppState) (verify : VerifyIdToken) (session : Session) (r : LogoutRequest) :
    M ErrorResponse LogoutHtml :=
  match r.idTokenHint with
  | none => return { csrfToken := session.csrfToken, action := false }
  | some token => do
      let claims ← validateIdToken data verify token
      throwIf (claims.custom.typ ≠ .id) (err .badRequest "The provided token is not an ID token")
      checkPostLogoutUri claims.custom.azp r.postLogoutRedirectUri
      return { csrfToken := session.csrfToken, action := true }

/-- `get_logout`: after an error the user is sent to the root page. -/
def getLogout (data : AppState) (verify : VerifyIdToken) (p : Principal) (r : LogoutRequest) :
    M ErrorResponse LogoutAnswer :=
  match p.getSession with
  | .error _ => return .root
  | .ok session => do
      match ← attempt (logout data verify session r) with
      | .error _ => return .root
      | .ok html => return .page html

/-- `post_logout`: where the answer redirects to, if it does. -/
def postLogoutLocation (p : Principal) (r : LogoutRequest) : M ErrorResponse (Option String) := do
  let session ← answer p.getSession
  postLogout session
  return r.postLogoutRedirectUri.map fun uri => uri ++ "?state=" ++ r.state.getD ""

/-! ### What the first endpoint accepts -/

/-- The key is cached, or it is in the table. -/
def KeyKnown (data : AppState) (w : World) (kid : String) (kp : JwkKeyPair) : Prop :=
  w.cache .c12hr ("jwk_kid_" ++ kid) = some (.jwkKeyPair kp) ∨
  ∃ jwk, ((w.db .jwks).filter fun j => j.kid == kid).head? = some jwk ∧
    JwkKeyPair.decrypt data jwk jwk.signature = .ok kp

/-- A key of this server verifies the token. -/
def TokenVerified (data : AppState) (verify : VerifyIdToken) (w : World) (token : String)
    (claims : JWTClaims JwtIdClaims) : Prop :=
  ∃ kid kp ms, data.kidFromToken token = .ok kid ∧ KeyKnown data w kid kp ∧
    w.clock ≤ ms ∧ verify kp token (ms / 1000) = .ok claims

/-- The URI is one of the client. -/
def UriRegistered (w : World) (id target : String) : Prop :=
  ∃ c uris, ClientKnown w id c ∧ c.getPostLogoutUris = some uris ∧
    uris.any (Client.matchesRedirectUri · target) = true

/-- The hint is an id token, and the URI one of the client that it was issued for. -/
def HintAllows (data : AppState) (verify : VerifyIdToken) (w : World) (r : LogoutRequest) : Prop :=
  ∃ token claims, r.idTokenHint = some token ∧ TokenVerified data verify w token claims ∧
    claims.custom.typ = .id ∧
    ∀ target, r.postLogoutRedirectUri = some target → UriRegistered w claims.custom.azp target

section Accepts

variable {data : AppState} {verify : VerifyIdToken} {w w' : World} {token kid id target : String}
  {claims : JWTClaims JwtIdClaims} {kp : JwkKeyPair} {c : Client} {r : LogoutRequest}
  {session : Session} {p : Principal}

theorem jwkKid_ne_client (kid id : String) : Client.getCacheEntry id ≠ "jwk_kid_" ++ kid := by
  intro h
  have hchar := congrArg (fun s : String => s.toList.head?) h
  simp [Client.getCacheEntry, String.toList_append] at hchar

/-- A key that is found was known, and the clients are known as before. -/
theorem JwkKeyPair.find_known (h : Exec sem (JwkKeyPair.find data kid) w (.ok kp) w') :
    KeyKnown data w kid kp ∧ w'.db = w.db ∧ w'.clock = w.clock ∧
      ∀ id, w'.cache .c12hr (Client.getCacheEntry id) =
        w.cache .c12hr (Client.getCacheEntry id) := by
  rcases exec_cached h with ⟨v, hv, hkp, rfl⟩ | ⟨w₁, w₂, hw₁, hload, rfl⟩
  · have hval : v = .jwkKeyPair kp := by
      cases v <;> cases hkp
      rfl
    exact ⟨.inl (hval ▸ hv), rfl, rfl, fun _ => rfl⟩
  · obtain ⟨jwk, w₃, hfetch, hanswer⟩ := exec_bind_ok.mp hload
    obtain ⟨hrow, rfl⟩ := exec_fetchOne.mp hfetch
    obtain ⟨hdec, rfl⟩ := exec_answer.mp hanswer
    have hdb : w₂.db = w.db := by rcases hw₁ with rfl | rfl <;> rfl
    refine ⟨.inr ⟨jwk, hdb ▸ hrow, hdec⟩, hdb, ?_, fun id => ?_⟩
    · rcases hw₁ with rfl | rfl <;> rfl
    · rw [World.put_cache, if_neg fun h => jwkKid_ne_client kid id h.2]
      rcases hw₁ with rfl | rfl
      · rfl
      · rw [World.del_cache, if_neg fun h => jwkKid_ne_client kid id h.2]

theorem KeyKnown.find (h : KeyKnown data w kid kp) : ∃ w',
    Exec sem (JwkKeyPair.find data kid) w (.ok kp) w' ∧ w'.db = w.db ∧ w'.clock = w.clock ∧
      ∀ id, w'.cache .c12hr (Client.getCacheEntry id) =
        w.cache .c12hr (Client.getCacheEntry id) := by
  have hfound : ∃ w', Exec sem (JwkKeyPair.find data kid) w (.ok kp) w' := by
    rcases h with hv | ⟨jwk, hrow, hdec⟩
    · exact ⟨w, exec_cached_hit hv rfl⟩
    · have hload : Exec sem (do
          let jwk ← fetchOne .jwks fun j => j.kid == kid
          answer (JwkKeyPair.decrypt data jwk jwk.signature))
          (w.del .c12hr ("jwk_kid_" ++ kid)) (.ok kp) (w.del .c12hr ("jwk_kid_" ++ kid)) :=
        exec_bind_ok.mpr ⟨jwk, _, exec_fetchOne.mpr ⟨hrow, rfl⟩, exec_answer.mpr ⟨hdec, rfl⟩⟩
      exact ⟨_, exec_cached_load hload⟩
  obtain ⟨w', hx⟩ := hfound
  exact ⟨w', hx, (JwkKeyPair.find_known hx).2⟩

/-- Whether a client is known is a matter of the table and of its own entry. -/
theorem ClientKnown.congr (hdb : w'.db = w.db)
    (hcache : ∀ id, w'.cache .c12hr (Client.getCacheEntry id) =
      w.cache .c12hr (Client.getCacheEntry id)) : ClientKnown w' id c ↔ ClientKnown w id c := by
  unfold ClientKnown
  rw [hdb, hcache id]

theorem exec_checkPostLogoutUri : (∃ w', Exec sem (checkPostLogoutUri id (some target)) w (.ok ()) w') ↔
    UriRegistered w id target := by
  constructor
  · rintro ⟨w', h⟩
    obtain ⟨c, w₁, hfind, h⟩ := exec_bind_ok.mp h
    obtain ⟨uris, w₂, hread, hcheck⟩ := exec_bind_ok.mp h
    obtain ⟨huris, rfl⟩ := exec_okOr.mp hread
    obtain ⟨hmatch, rfl⟩ := exec_throwIf_ok.mp hcheck
    exact ⟨c, uris, Client.exec_find_known.mp ⟨_, hfind⟩, huris, eq_true_of_ne_false hmatch⟩
  · rintro ⟨c, uris, hknown, huris, hmatch⟩
    obtain ⟨w', hfind⟩ := Client.exec_find_known.mpr hknown
    refine ⟨w', exec_bind_ok.mpr ⟨c, w', hfind, ?_⟩⟩
    refine exec_bind_ok.mpr ⟨uris, w', exec_okOr.mpr ⟨huris, rfl⟩, ?_⟩
    exact exec_throwIf_ok.mpr ⟨by simp [hmatch], rfl⟩

/-- The clients are known as before. -/
def SameClients (w w' : World) : Prop :=
  w'.db = w.db ∧ ∀ id, w'.cache .c12hr (Client.getCacheEntry id) =
    w.cache .c12hr (Client.getCacheEntry id)

theorem SameClients.uri (h : SameClients w w') :
    UriRegistered w' id target ↔ UriRegistered w id target :=
  exists_congr fun _ => exists_congr fun _ => and_congr (ClientKnown.congr h.1 h.2) Iff.rfl

theorem validateIdToken_verified
    (h : Exec sem (validateIdToken data verify token) w (.ok claims) w') :
    TokenVerified data verify w token claims ∧ SameClients w w' := by
  obtain ⟨kid, w₁, hhead, h⟩ := exec_bind_ok.mp h
  obtain ⟨kp, w₂, hfind, h⟩ := exec_bind_ok.mp h
  obtain ⟨now, w₃, hnow, hcheck⟩ := exec_bind_ok.mp h
  obtain ⟨hkid, rfl⟩ := exec_answer.mp hhead
  obtain ⟨hverify, rfl⟩ := exec_answer.mp hcheck
  obtain ⟨ms, rfl, hms, rfl⟩ := exec_unixTimestamp.mp hnow
  obtain ⟨hknown, hdb, hclock, hcache⟩ := JwkKeyPair.find_known hfind
  exact ⟨⟨kid, kp, ms, hkid, hknown, hclock ▸ hms, hverify⟩, hdb, hcache⟩

theorem TokenVerified.validate (h : TokenVerified data verify w token claims) : ∃ w',
    Exec sem (validateIdToken data verify token) w (.ok claims) w' ∧ SameClients w w' := by
  obtain ⟨kid, kp, ms, hkid, hknown, hms, hverify⟩ := h
  obtain ⟨w', hfind, hdb, hclock, hcache⟩ := hknown.find
  refine ⟨{ w' with clock := ms }, ?_, hdb, hcache⟩
  refine exec_bind_ok.mpr ⟨kid, w, exec_answer.mpr ⟨hkid, rfl⟩, ?_⟩
  refine exec_bind_ok.mpr ⟨kp, w', hfind, ?_⟩
  refine exec_bind_ok.mpr ⟨ms / 1000, { w' with clock := ms }, ?_, ?_⟩
  · exact exec_unixTimestamp.mpr ⟨ms, rfl, hclock.symm ▸ hms, rfl⟩
  · exact exec_answer.mpr ⟨hverify, rfl⟩

theorem exec_logout_action (session : Session) : (∃ html w', Exec sem (logout data verify session r) w (.ok html) w' ∧
    html.action = true) ↔ HintAllows data verify w r := by
  unfold logout HintAllows
  rcases r.idTokenHint with - | token
  · constructor
    · rintro ⟨html, w', h, haction⟩
      rw [Except.ok.inj h.1] at haction
      cases haction
    · rintro ⟨token, claims, hhint, -⟩
      cases hhint
  constructor
  · rintro ⟨html, w', h, -⟩
    obtain ⟨claims, w₁, hvalid, h⟩ := exec_bind_ok.mp h
    obtain ⟨_, w₂, hguard, h⟩ := exec_bind_ok.mp h
    obtain ⟨_, w₃, hcheck, -⟩ := exec_bind_ok.mp h
    obtain ⟨htyp, rfl⟩ := exec_throwIf_ok.mp hguard
    obtain ⟨hverified, hsame⟩ := validateIdToken_verified hvalid
    refine ⟨token, claims, rfl, hverified, not_not.mp htyp, fun target htarget => ?_⟩
    rw [htarget] at hcheck
    exact hsame.uri.mp (exec_checkPostLogoutUri.mp ⟨_, hcheck⟩)
  · rintro ⟨token', claims, hhint, hverified, htyp, hregistered⟩
    obtain rfl := Option.some.inj hhint
    obtain ⟨w₁, hvalid, hsame⟩ := hverified.validate
    obtain ⟨w₂, hcheck⟩ : ∃ w₂, Exec sem
        (checkPostLogoutUri claims.custom.azp r.postLogoutRedirectUri) w₁ (.ok ()) w₂ := by
      rcases htarget : r.postLogoutRedirectUri with - | target
      · exact ⟨w₁, rfl, rfl⟩
      · exact exec_checkPostLogoutUri.mpr (hsame.uri.mpr (hregistered target htarget))
    refine ⟨⟨session.csrfToken, true⟩, w₂, ?_, rfl⟩
    refine exec_bind_ok.mpr ⟨claims, w₁, hvalid, ?_⟩
    refine exec_bind_ok.mpr ⟨(), w₁, exec_throwIf_ok.mpr ⟨not_not.mpr htyp, rfl⟩, ?_⟩
    exact exec_bind_ok.mpr ⟨(), w₂, hcheck, rfl, rfl⟩

/-- `GET /oidc/logout` accepts the query: it answers with the page that logs out at once. -/
def Accepts (data : AppState) (verify : VerifyIdToken) (p : Principal) (w : World)
    (r : LogoutRequest) : Prop :=
  ∃ html w', Exec sem (getLogout data verify p r) w (.ok (.page html)) w' ∧ html.action = true

/-- **What `GET /oidc/logout` accepts**, for a session. -/
theorem getLogout_accepts_iff (hp : p.getSession = .ok session) :
    Accepts data verify p w r ↔ HintAllows data verify w r := by
  unfold Accepts getLogout
  rw [hp, ← exec_logout_action session]
  constructor
  · rintro ⟨html, w', h, haction⟩
    obtain ⟨x, w₁, htry, h⟩ := exec_bind_ok.mp h
    rcases x with e | page
    · cases Except.ok.inj (exec_ret.mp h).1
    · obtain ⟨hret, rfl⟩ := h
      cases Except.ok.inj hret
      exact ⟨html, _, exec_tried.mp htry, haction⟩
  · rintro ⟨html, w', h, haction⟩
    exact ⟨html, w', exec_bind_ok.mpr ⟨.ok html, w', exec_tried.mpr h, rfl, rfl⟩, haction⟩

/-- **When the redirect of `POST /oidc/logout` is one that `GET` accepts**: if there is no URI to
redirect to, or the hint allows it. -/
theorem post_logout_iff {loc : Option String}
    (h : Exec sem (postLogoutLocation p r) w (.ok loc) w') :
    loc = r.postLogoutRedirectUri.map (fun uri => uri ++ "?state=" ++ r.state.getD "") ∧
    ((∀ l, loc = some l → Accepts data verify p w r) ↔
      r.postLogoutRedirectUri = none ∨ HintAllows data verify w r) := by
  obtain ⟨session, w₁, hsession, h⟩ := exec_bind_ok.mp h
  obtain ⟨_, w₂, -, hret, -⟩ := exec_bind_ok.mp h
  obtain ⟨hp, rfl⟩ := exec_answer.mp hsession
  have hloc : loc = r.postLogoutRedirectUri.map fun uri => uri ++ "?state=" ++ r.state.getD "" :=
    Except.ok.inj hret
  refine ⟨hloc, ?_⟩
  rw [getLogout_accepts_iff hp, hloc]
  rcases r.postLogoutRedirectUri with - | uri
  · simp
  · simp

end Accepts

/-- Someone is logged in. -/
def loggedInPrincipal : Principal where
  session := some
    { id := "s", csrfToken := "csrf", userId := some "alice", roles := none, groups := none,
      isMfa := false, state := .auth, exp := 100, lastSeen := 0, remoteIp := none }
  roles := []

def quietWorld : World where
  clock := 0
  issued := []
  db _ := []
  cache _ _ := none

/-- The client with its one URI, and the key that its id tokens are signed with. -/
def byeWorld : World :=
  { quietWorld with db := fun
      | .clients => [{ sampleClient with postLogoutRedirectUris := some "https://app/bye" }]
      | .jwks => [{ kid := "kid", createdAt := 0, signature := .edDSA, encKeyId := "key", jwk := [1] }]
      | _ => [] }

/-- An id token that was issued for the client. -/
def hintClaims : JWTClaims JwtIdClaims :=
  { (default : JWTClaims JwtIdClaims) with
    expiresAt := 3600, custom := { (default : JwtIdClaims) with azp := "app", typ := .id } }

/-- The key verifies this token only, until it expires. -/
def verifyHint : VerifyIdToken := fun kp token now =>
  if kp.bytes = [1] ∧ token = "id token" ∧ now < hintClaims.expiresAt then .ok hintClaims
  else .error ⟨.unauthorized, "Invalid Token"⟩

def byeRequest : LogoutRequest where
  idTokenHint := some "id token"
  postLogoutRedirectUri := some "https://app/bye"
  state := some "abc"

theorem post_logout_iff_bye : ∃ w', Exec sem (postLogoutLocation loggedInPrincipal byeRequest)
      byeWorld (.ok (some "https://app/bye?state=abc")) w' ∧
    Accepts sampleState verifyHint loggedInPrincipal byeWorld byeRequest := by
  obtain ⟨r, w', hx, hr⟩ := Pool.exists_exec_of_choices Op.run
    (postLogoutLocation loggedInPrincipal byeRequest) [.time 0, .ok, .ok] byeWorld
    (fun r _ => r.toOption == some (some "https://app/bye?state=abc")) (by decide +kernel)
  have hok : r = .ok (some "https://app/bye?state=abc") := by
    rcases r with e | loc
    · cases hr
    · exact congrArg _ (Option.some.inj (eq_of_beq hr))
  subst hok
  have hverified : TokenVerified sampleState verifyHint byeWorld "id token" hintClaims :=
    ⟨"kid", ⟨"kid", .edDSA, [1]⟩, 0, rfl, .inr ⟨_, rfl, rfl⟩, le_refl _, rfl⟩
  refine ⟨w', hx, (post_logout_iff hx).2.mpr (.inr ?_) _ rfl⟩
  refine ⟨"id token", hintClaims, rfl, hverified, rfl, fun target htarget => ?_⟩
  obtain rfl : "https://app/bye" = target := Option.some.inj htarget
  exact ⟨_, ["https://app/bye"], .inr rfl, by decide, by decide⟩

/-- Without a hint, the user is sent to any URI. -/
theorem post_logout_open_redirect :
    ¬ ∀ (data : AppState) (verify : VerifyIdToken) (p : Principal) (r : LogoutRequest)
      (w w' : World) (l : String), Exec sem (postLogoutLocation p r) w (.ok (some l)) w' →
      Accepts data verify p w r := by
  intro hall
  obtain ⟨r, w', hx, hr⟩ := Pool.exists_exec_of_choices Op.run
    (postLogoutLocation loggedInPrincipal
      { idTokenHint := none, postLogoutRedirectUri := some "https://evil.example", state := none })
    [.time 0, .ok, .ok] quietWorld
    (fun r _ => r.toOption == some (some "https://evil.example?state=")) (by decide +kernel)
  rcases r with e | loc
  · cases hr
  rcases loc with - | l
  · cases hr
  have haccepts := hall sampleState (fun _ _ _ => .error default) _ _ _ w' l hx
  obtain ⟨html, w₁, hget, haction⟩ := haccepts
  obtain ⟨x, w₂, htry, hret⟩ := exec_bind_ok.mp hget
  have hpage := exec_tried.mp htry
  rcases x with e | page
  · cases Except.ok.inj (exec_ret.mp hret).1
  · rw [LogoutAnswer.page.inj (Except.ok.inj (exec_ret.mp hret).1)] at haction
    rw [Except.ok.inj hpage.1] at haction
    cases haction

end Rauthy
