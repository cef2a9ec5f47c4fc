/-
Rauthy/TokenSet.lean

`rauthy-service/src/token_set.rs` and the token builders of `auth.rs`: the claims of
the access, id and refresh tokens, and the token set that a grant returns.  A token
is the text that the library signs; the claims in it are what the results are about.
-/
import Rauthy.Clients
import Rauthy.Codes
import Rauthy.Keys
import Rauthy.Lib.Base64
import Rauthy.Users

namespace Rauthy

open Prog

inductive AuthCodeFlow where
  | yes
  | no
  deriving DecidableEq

inductive DeviceCodeFlow where
  | yes (did : String)
  | no
  deriving DecidableEq

def DeviceCodeFlow.did : DeviceCodeFlow → Option String
  | yes did => some did
  | no => none

/-- `Claims::with_custom_claims(custom, valid_for)`, `.with_issuer(..)` -/
def newClaims {α : Type} (data : AppState) (custom : α) (lifetime : Int)
    (subject : Option String) (audiences : List String) (nonce : Option String) :
    M ErrorResponse (JWTClaims α) := do
  let now ← unixTimestamp
  return { issuedAt := now, expiresAt := now + lifetime, invalidBefore := now,
           issuer := data.issuer, subject, audiences, nonce, custom }

/-! ### Custom attributes -/

/-- `HashMap::insert` -/
def insertAttr (attr : List (String × String)) (k v : String) : List (String × String) :=
  attr.filter (fun p => p.1 ≠ k) ++ [(k, v)]

/-- The last value of an attribute, as the map built from the rows holds it. -/
def lookupAttr (attrs : List UserAttrValueEntity) (k : String) : Option Bytes :=
  (attrs.reverse.find? (·.key == k)).map UserAttrValueEntity.value

/-- The loop over the attribute names of the custom scopes. -/
def customAttrs (data : AppState) (attrs : List UserAttrValueEntity) :
    List (String × String) → List String → M ErrorResponse (List (String × String))
  | attr, [] => return attr
  | attr, name :: names =>
      match lookupAttr attrs name with
      | none => customAttrs data attrs attr names
      | some value => do
          let json ← unwrap "Converting cust user id attr to json" (data.jsonFromSlice value)
          customAttrs data attrs (insertAttr attr name json) names

/-- The custom claims of a token: `none` if there is nothing to include. -/
def scopeCustoms (data : AppState) (includes : List (Option String))
    (attrs : List UserAttrValueEntity) : M ErrorResponse (Option (List (String × String))) := do
  let names := (includes.filterMap id).flatMap (Text.split ',')
  let attr ← customAttrs data attrs [] names
  return if attr.isEmpty then none else some attr

/-- The custom scopes of a token, and the user's attributes. -/
abbrev ScopeCustoms : Type := List Scope × Option (List UserAttrValueEntity)

/-- The custom claims for the scopes that `field` selects from, if there are some. -/
def customClaims (data : AppState) (field : Scope → Option String) :
    Option ScopeCustoms → M ErrorResponse (Option (List (String × String)))
  | none => return none
  | some (cust, userAttrs) => do
      let attrs ← unwrap "called `Option::unwrap()` on a `None` value" userAttrs
      scopeCustoms data (cust.map field) attrs

/-! ### Access tokens -/

def signAccessToken (data : AppState) (claims : JWTClaims JwtAccessClaims) (client : Client) :
    M ErrorResponse String := do
  let typ ← answer (JwkKeyPairAlg.fromStr client.accessTokenAlg)
  let kp ← JwkKeyPair.findLatest data client.accessTokenAlg typ
  answer (data.signJwt kp (.access claims))

def buildAccessToken (data : AppState) (user : Option User) (client : Client)
    (dpopFingerprint : Option String) (lifetime : Int) (scope : Option String)
    (customs : Option ScopeCustoms) (flow : DeviceCodeFlow) :
    M ErrorResponse String := do
  let scope := scope.getD (Text.replaceChar ',' ' ' client.defaultScopes)
  let custom ← customClaims data Scope.attrIncludeAccess customs
  let claims : JwtAccessClaims :=
    { typ := .bearer
      azp := client.id
      scope
      allowedOrigins := none
      did := flow.did
      email := user.bind fun u => if Text.contains scope "email" then some u.email else none
      preferredUsername := user.map User.email
      roles := user.map User.getRoles
      groups := user.bind fun u => if Text.contains scope "groups" then some u.getGroups else none
      cnf := dpopFingerprint.map JktClaim.mk
      custom }
  let claims ← newClaims data claims lifetime (user.map User.id) [client.id] none
  signAccessToken data claims client

/-! ### Id tokens -/

/-- `AddressClaim::try_build` -/
def AddressClaim.tryBuild (user : User) (values : UserValues) : Option AddressClaim :=
  let formatted := user.givenName ++ " " ++ user.familyName ++ "\n"
  let formatted := match values.street with
    | some street => formatted ++ street ++ "\n"
    | none => formatted
  let formatted := match values.zip, values.city with
    | some zip, some city => formatted ++ toString zip ++ ", " ++ city ++ "\n"
    | some zip, none => formatted ++ toString zip ++ "\n"
    | none, _ => formatted
  let formatted := match values.country with
    | some country => formatted ++ country ++ "\n"
    | none => formatted
  -- a city without a zip code is left out
  let locality := if values.zip.isSome then values.city else none
  if values.street.isSome || locality.isSome || values.zip.isSome || values.country.isSome then
    some { formatted, streetAddress := values.street, locality, postalCode := values.zip,
           country := values.country }
  else none

def signIdToken (data : AppState) (claims : JWTClaims JwtIdClaims) (client : Client) :
    M ErrorResponse String := do
  let typ ← answer (JwkKeyPairAlg.fromStr client.idTokenAlg)
  let kp ← JwkKeyPair.findLatest data client.idTokenAlg typ
  answer (data.signJwt kp (.id claims))

/-- The method and time of the authentication.  Without the authorization code flow
the time is a session's lifetime ago. -/
def amrAuthTime (data : AppState) (user : User) (flow : AuthCodeFlow) (now : Int) :
    String × Int :=
  match flow with
  | .yes => (if user.hasWebauthnEnabled then "mfa" else "pwd", now)
  | .no => ("pwd", now - data.sessionLifetime)

/-- The values of the user, if one of the scopes needs them. -/
def userValuesFor (needed : Bool) (userId : String) : M ErrorResponse (Option UserValues) :=
  if needed then UserValues.find userId else return none

def buildIdToken (data : AppState) (user : User) (client : Client)
    (dpopFingerprint : Option String) (atHash : String) (lifetime : Int) (nonce : Option String)
    (scope : String) (customs : Option ScopeCustoms)
    (flow : AuthCodeFlow) : M ErrorResponse String := do
  let nowTs ← unixTimestamp
  let (amr, authTime) := amrAuthTime data user flow nowTs
  let webid := if data.enableWebId && Text.contains scope "webid" then
    some (data.pubUrlWithScheme ++ "/auth/" ++ user.id ++ "/profile#me") else none
  let email := Text.contains scope "email"
  let profile := Text.contains scope "profile"
  let address := Text.contains scope "address"
  let phone := Text.contains scope "phone"
  -- fetched once, for the first of the scopes that needs it
  let values ← userValuesFor (profile || address || phone) user.id
  let custom ← customClaims data Scope.attrIncludeId customs
  let claims : JwtIdClaims :=
    { azp := client.id
      typ := .id
      amr := [amr]
      authTime
      atHash
      preferredUsername := user.email
      email := if email then some user.email else none
      emailVerified := if email then some user.emailVerified else none
      givenName := if profile then some user.givenName else none
      familyName := if profile then some user.familyName else none
      address := if address then values.bind (AddressClaim.tryBuild user) else none
      birthdate := if profile then values.bind UserValues.birthdate else none
      locale := if profile then some user.language.asStr else none
      phone := if phone then values.bind UserValues.phone else none
      roles := user.getRoles
      groups := if Text.contains scope "groups" then some user.getGroups else none
      cnf := dpopFingerprint.map JktClaim.mk
      custom
      webid }
  let audiences := if client.isEphemeral data && data.enableSolidAud then ["solid", client.id]
    else [client.id]
  let claims ← newClaims data claims lifetime (some user.id) audiences nonce
  signIdToken data claims client

/-! ### Refresh tokens -/

def signRefreshToken (data : AppState) (claims : JWTClaims JwtRefreshClaims) :
    M ErrorResponse String := do
  let kp ← JwkKeyPair.findLatest data "EdDSA" .edDSA
  -- signatures with EdDSA are randomized
  let noise ← getRand 16
  answer (data.signJwt kp (.refresh noise claims))

/-- `token.len() - 49`: the end of the token by which it is found again. -/
def validationString (token : String) : M ErrorResponse String :=
  unwrap "attempt to subtract with overflow" (Text.lastBytes token 49)

def buildRefreshToken (data : AppState) (user : User) (dpopFingerprint : Option String)
    (client : Client) (accessTokenLifetime : Int) (scope : Option String) (isMfa : Bool)
    (flow : DeviceCodeFlow) : M ErrorResponse String := do
  let claims : JwtRefreshClaims :=
    { azp := client.id, typ := .refresh, uid := user.id, cnf := dpopFingerprint.map JktClaim.mk }
  let claims ← newClaims data claims (48 * 3600) none [client.id] none
  let token ← signRefreshToken data claims
  let id ← validationString token
  let now ← unixTimestamp
  let nbf := now + (accessTokenLifetime - 60)
  match flow with
  | .yes deviceId =>
      RefreshTokenDevice.create id deviceId user.id nbf
        (nbf + data.deviceGrantRefreshTokenLifetime * 3600) scope
      return token
  | .no =>
      let _ ← RefreshToken.create id user.id nbf (nbf + data.refreshTokenLifetime * 3600) scope isMfa
      return token

/-- The refresh token, if the client gets one. -/
def refreshTokenFor (data : AppState) (user : User) (dpopFingerprint : Option String)
    (client : Client) (lifetime : Int) (scopes : Option String) (flow : DeviceCodeFlow) :
    M ErrorResponse (Option String) :=
  if client.refreshToken then do
    let token ← buildRefreshToken data user dpopFingerprint client lifetime scopes
      user.hasWebauthnEnabled flow
    return some token
  else return none

/-! ### Token sets -/

def tokenTypeOf (dpopFingerprint : Option String) : JwtTokenType :=
  if dpopFingerprint.isSome then .dpop else .bearer

/-- `TryFrom<&str>` -/
def AtHashAlg.tryFrom (value : String) : Except ErrorResponse AtHashAlg :=
  if value = "RS256" then .ok .sha256
  else if value = "RS384" then .ok .sha384
  else if value = "RS512" then .ok .sha512
  else if value = "EdDSA" then .ok .sha512
  else .error ⟨.internal, "Cannot build AtHashAlg from value"⟩

/-- The left half of the hash, in base64url without padding. -/
def AtHash.build (data : AppState) (accessToken : Bytes) (alg : AtHashAlg) : String :=
  let bytes := (data.digest alg accessToken).val
  String.ofList (Base64.encode Base64.urlSafe false (bytes.take (bytes.length / 2)))

namespace TokenSet

def forClientCredentials (data : AppState) (client : Client) (dpopFingerprint : Option String) :
    M ErrorResponse TokenSet := do
  let accessToken ← buildAccessToken data none client dpopFingerprint client.accessTokenLifetime
    none none .no
  return { accessToken, tokenType := tokenTypeOf dpopFingerprint, idToken := none,
           expiresIn := client.accessTokenLifetime, refreshToken := none }

/-- The attributes of the user, if there is a custom mapping. -/
def userAttrsFor (user : User) (needed : Bool) :
    M ErrorResponse (Option (List UserAttrValueEntity)) :=
  if needed then do
    let attrs ← UserAttrValueEntity.findForUser user.id
    return some attrs
  else return none

/-- The custom scopes for the access and the id token, with the user's attributes. -/
def customsOf (user : User) (scope : String) :
    M ErrorResponse (Option ScopeCustoms × Option ScopeCustoms) := do
  let cust := Scope.extractCustom scope
  if cust.isEmpty then return (none, none)
  else
    let scps ← Scope.findAll
    let wanted := scps.filter (·.name ∈ cust)
    let access := wanted.filter (·.attrIncludeAccess.isSome)
    let id := wanted.filter (·.attrIncludeId.isSome)
    let attrs ← userAttrsFor user (!access.isEmpty || !id.isEmpty)
    return (if access.isEmpty then none else some (access, attrs),
      if id.isEmpty then none else some (id, attrs))

/-- The lifetime of the tokens: no longer than the user lives. -/
def lifetimeOf (user : User) (client : Client) : M ErrorResponse Int :=
  match user.userExpires with
  | none => return client.accessTokenLifetime.natAbs
  | some ts => do
      let now ← unixTimestamp
      let diff := ts - now
      throwIf (diff < 1) (err .forbidden "User has expired")
      return min (client.accessTokenLifetime.natAbs : Int) diff

/-- The hash of the access token, for the algorithm of the access tokens. -/
def atHashOf (data : AppState) (client : Client) (accessToken : String) :
    Except ErrorResponse String := do
  let alg ← AtHashAlg.tryFrom client.accessTokenAlg
  return AtHash.build data (Text.asBytes accessToken) alg

/-- `TokenSet::from_user` -/
@[irreducible] def fromUser (data : AppState) (user : User) (client : Client)
    (dpopFingerprint nonce scopes : Option String) (authCodeFlow : AuthCodeFlow)
    (deviceCodeFlow : DeviceCodeFlow) : M ErrorResponse TokenSet := do
  let scope := scopes.getD (Text.replaceChar ',' ' ' client.defaultScopes)
  let (customsAccess, customsId) ← customsOf user scope
  let lifetime ← lifetimeOf user client
  let accessToken ← buildAccessToken data (some user) client dpopFingerprint lifetime (some scope)
    customsAccess deviceCodeFlow
  let atHash ← answer (atHashOf data client accessToken)
  let idToken ← buildIdToken data user client dpopFingerprint atHash lifetime nonce scope
    customsId authCodeFlow
  let refreshToken ← refreshTokenFor data user dpopFingerprint client lifetime scopes
    deviceCodeFlow
  return { accessToken, tokenType := tokenTypeOf dpopFingerprint, idToken := some idToken,
           expiresIn := client.accessTokenLifetime, refreshToken }

end TokenSet

/-! ### What they write -/

section Touches

theorem newClaims_touches {α : Type} (data : AppState) (custom : α) (lt : Int) (s : Option String)
    (a : List String) (n : Option String) : Touches [] [] (newClaims data custom lt s a n) :=
  touches_bind touches_unixTimestamp fun _ => touches_ret _

theorem customAttrs_touches (data : AppState) (attrs : List UserAttrValueEntity)
    (attr : List (String × String)) (names : List String) :
    Touches [] [] (customAttrs data attrs attr names) := by
  induction names generalizing attr with
  | nil => exact touches_ret _
  | cons name names ih =>
      unfold customAttrs
      split
      · exact ih attr
      · exact touches_bind (touches_unwrap _ _) fun _ => ih _

theorem scopeCustoms_touches (data : AppState) (includes : List (Option String))
    (attrs : List UserAttrValueEntity) : Touches [] [] (scopeCustoms data includes attrs) :=
  touches_bind (customAttrs_touches _ _ _ _) fun _ => touches_ret _

theorem customClaims_touches (data : AppState) (field : Scope → Option String)
    (customs : Option ScopeCustoms) :
    Touches [] [] (customClaims data field customs) := by
  rcases customs with - | ⟨cust, attrs⟩
  · exact touches_ret _
  · exact touches_bind (touches_unwrap _ _) fun _ => scopeCustoms_touches _ _ _

theorem buildAccessToken_touches (data : AppState) (user : Option User) (client : Client)
    (fp : Option String) (lt : Int) (scope : Option String)
    (customs : Option ScopeCustoms) (flow : DeviceCodeFlow) :
    Touches [] [(.c12hr, .jwkKeyPair)]
      (buildAccessToken data user client fp lt scope customs flow) := by
  refine touches_bind ((customClaims_touches _ _ _).mono (by simp) (by simp)) fun custom => ?_
  refine touches_bind ((newClaims_touches _ _ _ _ _ _).mono (by simp) (by simp)) fun claims => ?_
  refine touches_bind (touches_answer _) fun typ => ?_
  exact touches_bind (JwkKeyPair.findLatest_touches _ _ _) fun _ => touches_answer _

theorem userValuesFor_touches (needed : Bool) (id : String) :
    Touches [] [(.users, .userValues)] (userValuesFor needed id) := by
  unfold userValuesFor
  split
  · exact UserValues.find_touches _
  · exact touches_ret _

theorem buildIdToken_touches (data : AppState) (user : User) (client : Client)
    (fp : Option String) (atHash : String) (lt : Int) (nonce : Option String) (scope : String)
    (customs : Option ScopeCustoms) (flow : AuthCodeFlow) :
    Touches [] [(.c12hr, .jwkKeyPair), (.users, .userValues)]
      (buildIdToken data user client fp atHash lt nonce scope customs flow) := by
  refine touches_bind touches_unixTimestamp fun nowTs => ?_
  refine touches_bind ((userValuesFor_touches _ _).mono (by simp) (by simp)) fun values => ?_
  refine touches_bind ((customClaims_touches _ _ _).mono (by simp) (by simp)) fun custom => ?_
  refine touches_bind ((newClaims_touches _ _ _ _ _ _).mono (by simp) (by simp)) fun claims => ?_
  refine touches_bind (touches_answer _) fun typ => ?_
  exact touches_bind ((JwkKeyPair.findLatest_touches _ _ _).mono (by simp) (by simp))
    fun _ => touches_answer _

theorem buildRefreshToken_touches (data : AppState) (user : User) (fp : Option String)
    (client : Client) (lt : Int) (scope : Option String) (isMfa : Bool) (flow : DeviceCodeFlow) :
    Touches [.refreshTokens, .refreshTokensDevices] [(.c12hr, .jwkKeyPair)]
      (buildRefreshToken data user fp client lt scope isMfa flow) := by
  refine touches_bind ((newClaims_touches _ _ _ _ _ _).mono (by simp) (by simp)) fun claims => ?_
  refine touches_bind (touches_bind ?_ fun _ => touches_bind (touches_getRand _) fun _ =>
    touches_answer _) fun token => ?_
  · exact (JwkKeyPair.findLatest_touches _ _ _).mono (by simp) (by simp)
  refine touches_bind (touches_unwrap _ _) fun id => touches_bind touches_unixTimestamp fun now => ?_
  cases flow with
  | yes did =>
      exact touches_bind (touches_execute (by simp [DbWrite.table])) fun _ => touches_ret _
  | no =>
      refine touches_bind (touches_bind (touches_execute (by simp [DbWrite.table])) fun _ => ?_)
        fun _ => touches_ret _
      exact touches_ret _

namespace TokenSet

/-- The tables that building a token set writes. -/
def tables : List Table := [.refreshTokens, .refreshTokensDevices]

theorem refreshTokenFor_touches (data : AppState) (user : User) (fp : Option String)
    (client : Client) (lt : Int) (scopes : Option String) (flow : DeviceCodeFlow) :
    Touches tables [(.c12hr, .jwkKeyPair)]
      (refreshTokenFor data user fp client lt scopes flow) := by
  unfold refreshTokenFor
  split
  · exact touches_bind (buildRefreshToken_touches _ _ _ _ _ _ _ _) fun _ => touches_ret _
  · exact touches_ret _

/-- The entries that building a token set caches. -/
def slots : List (CacheName × Slot) :=
  [(.c12hr, .jwkKeyPair), (.c12hr, .scopes), (.users, .userValues), (.users, .userAttrValues)]

theorem forClientCredentials_touches (data : AppState) (client : Client) (fp : Option String) :
    Touches [] [(.c12hr, .jwkKeyPair)] (forClientCredentials data client fp) :=
  touches_bind (buildAccessToken_touches _ _ _ _ _ _ _ _) fun _ => touches_ret _

theorem customsOf_touches (user : User) (scope : String) :
    Touches [] [(.c12hr, .scopes), (.users, .userAttrValues)] (customsOf user scope) := by
  unfold customsOf
  dsimp only
  split
  · exact touches_ret _
  · refine touches_bind (Scope.findAll_touches.mono (by simp) (by simp)) fun scps => ?_
    refine touches_bind ?_ fun _ => touches_ret _
    unfold userAttrsFor
    split
    · exact touches_bind ((UserAttrValueEntity.findForUser_touches _).mono (by simp) (by simp))
        fun _ => touches_ret _
    · exact touches_ret _

theorem lifetimeOf_touches (user : User) (client : Client) :
    Touches [] [] (lifetimeOf user client) := by
  unfold lifetimeOf
  split
  · exact touches_ret _
  · exact touches_bind touches_unixTimestamp fun _ =>
      touches_bind (touches_throwIf _ _) fun _ => touches_ret _

theorem fromUser_touches (data : AppState) (user : User) (client : Client)
    (fp nonce scopes : Option String) (acf : AuthCodeFlow) (dcf : DeviceCodeFlow) :
    Touches tables slots (fromUser data user client fp nonce scopes acf dcf) := by
  unfold fromUser
  refine touches_bind ((customsOf_touches _ _).mono (by simp) (by simp [slots])) fun ⟨ca, ci⟩ => ?_
  refine touches_bind ((lifetimeOf_touches _ _).mono (by simp) (by simp)) fun lt => ?_
  refine touches_bind ((buildAccessToken_touches _ _ _ _ _ _ _ _).mono (by simp) (by simp [slots]))
    fun at' => touches_bind (touches_answer _) fun ah => ?_
  refine touches_bind
    ((buildIdToken_touches _ _ _ _ _ _ _ _ _ _).mono (by simp) (by simp [slots])) fun idt => ?_
  exact touches_bind ((refreshTokenFor_touches _ _ _ _ _ _ _).mono (by simp) (by simp [slots]))
    fun rt => touches_ret _

end TokenSet

end Touches

section NoDel

theorem customAttrs_noDel (data : AppState) (attrs : List UserAttrValueEntity)
    (attr : List (String × String)) (names : List String) :
    NoDel (customAttrs data attrs attr names) := by
  induction names generalizing attr with
  | nil => exact noDel_ret _
  | cons name names ih =>
      unfold customAttrs
      split
      · exact ih attr
      · exact noDel_bind (noDel_unwrap _ _) fun _ => ih _

theorem customClaims_noDel (data : AppState) (field : Scope → Option String)
    (customs : Option ScopeCustoms) :
    NoDel (customClaims data field customs) := by
  rcases customs with - | ⟨cust, attrs⟩
  · exact noDel_ret _
  · refine noDel_bind (noDel_unwrap _ _) fun _ => ?_
    exact noDel_bind (customAttrs_noDel _ _ _ _) fun _ => noDel_ret _

theorem TokenSet.customsOf_noDel (user : User) (scope : String) :
    NoDel (TokenSet.customsOf user scope) := by
  unfold TokenSet.customsOf
  dsimp only
  split
  · exact noDel_ret _
  · refine noDel_bind Scope.findAll_noDel fun scps => noDel_bind ?_ fun _ => noDel_ret _
    unfold TokenSet.userAttrsFor
    split
    · exact noDel_bind (UserAttrValueEntity.findForUser_noDel _) fun _ => noDel_ret _
    · exact noDel_ret _

theorem TokenSet.lifetimeOf_noDel (user : User) (client : Client) :
    NoDel (TokenSet.lifetimeOf user client) := by
  unfold TokenSet.lifetimeOf
  split
  · exact noDel_ret _
  · exact noDel_bind noDel_unixTimestamp fun _ => noDel_bind (noDel_throwIf _ _) fun _ =>
      noDel_ret _

theorem userValuesFor_noDel (needed : Bool) (id : String) : NoDel (userValuesFor needed id) := by
  unfold userValuesFor
  split
  · exact UserValues.find_noDel _
  · exact noDel_ret _

end NoDel

/-! ### How the tokens are built -/

section Built

variable {S : Type} {step : (o : Op) → S → o.Res → S → Prop} {s s' : S} {data : AppState}
  {client : Client} {fp : Option String} {lt : Int} {token : String}
  {customs : Option ScopeCustoms}

/-- An access token is signed for claims with the custom ones, in some second. -/
theorem buildAccessToken_built {user : Option User} {scope : Option String} {dcf : DeviceCodeFlow}
    (h : Exec step (buildAccessToken data user client fp lt scope customs dcf) s (.ok token) s') :
    ∃ (claims : JWTClaims JwtAccessClaims) (s₁ s₂ : S),
      Exec step (customClaims data Scope.attrIncludeAccess customs) s (.ok claims.custom.custom) s₁ ∧
      Exec step (unixTimestamp : M ErrorResponse Int) s₁ (.ok claims.issuedAt) s₂ ∧
      claims.expiresAt = claims.issuedAt + lt ∧
      Exec step (signAccessToken data claims client) s₂ (.ok token) s' := by
  obtain ⟨custom, s₁, hcustom, hrest⟩ := exec_bind_ok.mp h
  obtain ⟨claims, s₂, hclaims, hsign⟩ := exec_bind_ok.mp hrest
  obtain ⟨now, s₃, hnow, hret, rfl⟩ := exec_bind_ok.mp hclaims
  cases hret
  exact ⟨_, s₁, s₂, hcustom, hnow, rfl, hsign⟩

/-- An id token is signed for claims with the custom ones and the hash, in some second. -/
theorem buildIdToken_built {user : User} {atHash scope : String} {nonce : Option String}
    {acf : AuthCodeFlow}
    (h : Exec step (buildIdToken data user client fp atHash lt nonce scope customs acf) s
      (.ok token) s') :
    ∃ (claims : JWTClaims JwtIdClaims) (now : Int) (values : Option UserValues) (s₁ s₂ s₃ s₄ : S),
      Exec step (unixTimestamp : M ErrorResponse Int) s (.ok now) s₁ ∧
      Exec step (userValuesFor (Text.contains scope "profile" || Text.contains scope "address" ||
        Text.contains scope "phone") user.id) s₁ (.ok values) s₂ ∧
      Exec step (customClaims data Scope.attrIncludeId customs) s₂ (.ok claims.custom.custom) s₃ ∧
      Exec step (unixTimestamp : M ErrorResponse Int) s₃ (.ok claims.issuedAt) s₄ ∧
      claims.expiresAt = claims.issuedAt + lt ∧ claims.custom.atHash = atHash ∧
      Exec step (signIdToken data claims client) s₄ (.ok token) s' := by
  obtain ⟨now, s₁, hnow, hrest⟩ := exec_bind_ok.mp h
  obtain ⟨values, s₂, hvalues, hrest⟩ := exec_bind_ok.mp hrest
  obtain ⟨custom, s₃, hcustom, hrest⟩ := exec_bind_ok.mp hrest
  obtain ⟨claims, s₄, hclaims, hsign⟩ := exec_bind_ok.mp hrest
  obtain ⟨iat, s₅, hiat, hret, rfl⟩ := exec_bind_ok.mp hclaims
  cases hret
  exact ⟨_, now, values, s₁, s₂, s₃, s₄, hnow, hvalues, hcustom, hiat, rfl, rfl, hsign⟩

/-- A token is signed with the latest key of its algorithm. -/
theorem signAccessToken_signed {claims : JWTClaims JwtAccessClaims}
    (h : Exec step (signAccessToken data claims client) s (.ok token) s') :
    ∃ typ kp, JwkKeyPairAlg.fromStr client.accessTokenAlg = .ok typ ∧
      Exec step (JwkKeyPair.findLatest data client.accessTokenAlg typ) s (.ok kp) s' ∧
      data.signJwt kp (.access claims) = .ok token := by
  obtain ⟨typ, s₁, htyp, hrest⟩ := exec_bind_ok.mp h
  obtain ⟨halg, rfl⟩ := exec_answer.mp htyp
  obtain ⟨kp, s₂, hkp, htoken⟩ := exec_bind_ok.mp hrest
  obtain ⟨hsign, rfl⟩ := exec_answer.mp htoken
  exact ⟨typ, kp, halg, hkp, hsign⟩

theorem signIdToken_signed {claims : JWTClaims JwtIdClaims}
    (h : Exec step (signIdToken data claims client) s (.ok token) s') :
    ∃ typ kp, JwkKeyPairAlg.fromStr client.idTokenAlg = .ok typ ∧
      Exec step (JwkKeyPair.findLatest data client.idTokenAlg typ) s (.ok kp) s' ∧
      data.signJwt kp (.id claims) = .ok token := by
  obtain ⟨typ, s₁, htyp, hrest⟩ := exec_bind_ok.mp h
  obtain ⟨halg, rfl⟩ := exec_answer.mp htyp
  obtain ⟨kp, s₂, hkp, htoken⟩ := exec_bind_ok.mp hrest
  obtain ⟨hsign, rfl⟩ := exec_answer.mp htoken
  exact ⟨typ, kp, halg, hkp, hsign⟩

/-- A token set is made of its tokens, one after the other. -/
theorem TokenSet.fromUser_built {user : User} {nonce scopes : Option String} {acf : AuthCodeFlow}
    {dcf : DeviceCodeFlow} {ts : TokenSet}
    (h : Exec step (TokenSet.fromUser data user client fp nonce scopes acf dcf) s (.ok ts) s') :
    ∃ customs customsId lt atHash idToken refreshToken s₁ s₂ s₃ s₄,
      Exec step (customsOf user (scopes.getD (Text.replaceChar ',' ' ' client.defaultScopes))) s
        (.ok (customs, customsId)) s₁ ∧
      Exec step (lifetimeOf user client) s₁ (.ok lt) s₂ ∧
      Exec step (buildAccessToken data (some user) client fp lt
        (some (scopes.getD (Text.replaceChar ',' ' ' client.defaultScopes))) customs dcf) s₂
        (.ok ts.accessToken) s₃ ∧
      atHashOf data client ts.accessToken = .ok atHash ∧
      Exec step (buildIdToken data user client fp atHash lt nonce
        (scopes.getD (Text.replaceChar ',' ' ' client.defaultScopes)) customsId acf) s₃
        (.ok idToken) s₄ ∧
      Exec step (refreshTokenFor data user fp client lt scopes dcf) s₄ (.ok refreshToken) s' ∧
      ts.idToken = some idToken ∧ ts.expiresIn = client.accessTokenLifetime := by
  unfold TokenSet.fromUser at h
  obtain ⟨⟨customs, customsId⟩, s₁, hcustoms, h₁⟩ := exec_bind_ok.mp h
  obtain ⟨lt, s₂, hlt, h₂⟩ := exec_bind_ok.mp h₁
  obtain ⟨accessToken, s₃, haccess, h₃⟩ := exec_bind_ok.mp h₂
  obtain ⟨atHash, s₃', hanswer, h₄⟩ := exec_bind_ok.mp h₃
  obtain ⟨hhash, rfl⟩ := exec_answer.mp hanswer
  obtain ⟨idToken, s₄, hid, h₅⟩ := exec_bind_ok.mp h₄
  obtain ⟨refreshToken, s₅, hrefresh, hret, rfl⟩ := exec_bind_ok.mp h₅
  cases hret
  exact ⟨customs, customsId, lt, atHash, idToken, refreshToken, s₁, s₂, _, s₄, hcustoms, hlt,
    haccess, hhash, hid, hrefresh, rfl, rfl⟩

end Built

/-! ### What a token set says -/

/-- The tokens are those of the user for the client: their subject, audience, scope and
the key they are bound to. -/
structure TokenSet.IsFor (data : AppState) (user : User) (client : Client)
    (fp nonce scopes : Option String) (dcf : DeviceCodeFlow) (ts : TokenSet) : Prop where
  access : ∃ kp claims, data.signJwt kp (.access claims) = .ok ts.accessToken ∧
    claims.subject = some user.id ∧ claims.custom.azp = client.id ∧
    claims.custom.scope = scopes.getD (Text.replaceChar ',' ' ' client.defaultScopes) ∧
    claims.custom.cnf = fp.map JktClaim.mk ∧ claims.custom.did = dcf.did
  id : ∃ token kp claims, ts.idToken = some token ∧ data.signJwt kp (.id claims) = .ok token ∧
    claims.subject = some user.id ∧ claims.nonce = nonce ∧ claims.custom.azp = client.id ∧
    claims.custom.cnf = fp.map JktClaim.mk
  refresh : ∀ token, ts.refreshToken = some token →
    ∃ kp noise claims, data.signJwt kp (.refresh noise claims) = .ok token ∧
      claims.custom.uid = user.id ∧ claims.custom.azp = client.id ∧
      claims.custom.cnf = fp.map JktClaim.mk

/-- The row that a refresh token leaves in the database. -/
def refreshRow (data : AppState) (user : User) (id : String) (nbf : Int) (scope : Option String)
    (isMfa : Bool) : DeviceCodeFlow → DbWrite
  | .yes deviceId => .upsert .refreshTokensDevices
      { id, deviceId, userId := user.id, nbf,
        exp := nbf + data.deviceGrantRefreshTokenLifetime * 3600, scope }
  | .no => .upsert .refreshTokens
      { id, userId := user.id, nbf, exp := nbf + data.refreshTokenLifetime * 3600, scope, isMfa }

/-- The refresh token that is signed in the second `iat`. -/
def refreshClaims (data : AppState) (user : User) (client : Client) (fp : Option String)
    (iat : Int) : JWTClaims JwtRefreshClaims :=
  { issuedAt := iat, expiresAt := iat + 48 * 3600, invalidBefore := iat, issuer := data.issuer,
    subject := none, audiences := [client.id], nonce := none,
    custom := { azp := client.id, typ := .refresh, uid := user.id, cnf := fp.map JktClaim.mk } }

section Sees

open Pool

variable {G : List (Seen Op Op.Res) → Seen Op Op.Res → Prop} {tr : List (Seen Op Op.Res)}
  {data : AppState} {user : User} {client : Client} {fp nonce scope scopes : Option String}
  {acf : AuthCodeFlow} {dcf : DeviceCodeFlow} {lt : Int} {isMfa : Bool}
  {customs : Option ScopeCustoms}

/-- The refresh token was signed in the second `iat`, which the request has read, and it is
found by `id`. -/
structure RefreshSigned (data : AppState) (user : User) (client : Client) (fp : Option String)
    (noise token id : String) (iat : Int) (tr : List (Seen Op Op.Res)) : Prop where
  signed : ∃ kp, data.signJwt kp (.refresh noise (refreshClaims data user client fp iat)) = .ok token
  id : Text.lastBytes token 49 = some id
  iat : ∃ ms : Int, ⟨.now, ms⟩ ∈ tr ∧ iat = ms / 1000

/-- The request has signed the refresh token, and then written its row. -/
def RefreshIssued (data : AppState) (user : User) (client : Client) (fp scope : Option String)
    (isMfa : Bool) (dcf : DeviceCodeFlow) (token : String) (tr : List (Seen Op Op.Res)) : Prop :=
  ∃ noise id iat ms lt tr₁, RefreshSigned data user client fp noise token id iat tr₁ ∧
    tr = ⟨.execute [refreshRow data user id (ms / 1000 + (lt - 60)) scope isMfa dcf], .ok ()⟩ ::
      ⟨.now, ms⟩ :: ⟨.getRand 16, noise⟩ :: tr₁

/-- The rows of refresh tokens may be written. -/
def AllowsRows (G : List (Seen Op Op.Res) → Seen Op Op.Res → Prop) (data : AppState) (user : User)
    (client : Client) (fp scope : Option String) (isMfa : Bool) (dcf : DeviceCodeFlow) : Prop :=
  ∀ tr noise token id iat (ms : Int) lt x, RefreshSigned data user client fp noise token id iat tr →
    G (⟨.now, ms⟩ :: ⟨.getRand 16, noise⟩ :: tr)
      ⟨.execute [refreshRow data user id (ms / 1000 + (lt - 60)) scope isMfa dcf], x⟩

theorem sees_newClaims {α : Type} {custom : α} {s : Option String} {a : List String}
    {n : Option String} (hG : ∀ ms : Int, G tr ⟨.now, ms⟩) :
    Sees Op.Possible G (newClaims data custom lt s a n)
      (fun c tr' => ∃ ms : Int, tr' = ⟨.now, ms⟩ :: tr ∧
        c = { issuedAt := ms / 1000, expiresAt := ms / 1000 + lt, invalidBefore := ms / 1000,
              issuer := data.issuer, subject := s, audiences := a, nonce := n, custom }) tr := by
  refine sees_bind (sees_unixTimestamp hG) fun now tr₁ _ ⟨ms, htr, hnow⟩ => sees_ret ?_
  exact ⟨ms, htr, by rw [hnow]⟩

theorem sees_customClaims {field : Scope → Option String} (hG : Allows G [] TokenSet.slots) :
    Sees Op.Possible G (customClaims data field customs) (fun _ _ => True) tr :=
  sees_of_touches (customClaims_touches _ _ _) (customClaims_noDel _ _ _) hG (by simp) (by simp)

theorem sees_findLatest {alg : String} {typ : JwkKeyPairAlg} (hG : Allows G [] TokenSet.slots) :
    Sees Op.Possible G (JwkKeyPair.findLatest data alg typ) (fun _ _ => True) tr :=
  sees_of_touches (JwkKeyPair.findLatest_touches _ _ _) (JwkKeyPair.findLatest_noDel _ _ _) hG
    (by simp) (by simp [TokenSet.slots])

theorem sees_buildAccessToken (hG : Allows G [] TokenSet.slots) :
    Sees Op.Possible G (buildAccessToken data (some user) client fp lt scope customs dcf)
      (fun token _ => ∃ kp claims, data.signJwt kp (.access claims) = .ok token ∧
        claims.subject = some user.id ∧ claims.custom.azp = client.id ∧
        claims.custom.scope = scope.getD (Text.replaceChar ',' ' ' client.defaultScopes) ∧
        claims.custom.cnf = fp.map JktClaim.mk ∧ claims.custom.did = dcf.did) tr := by
  refine sees_bind (sees_customClaims hG) fun custom _ _ _ => ?_
  refine sees_bind (sees_newClaims hG.now) fun claims _ _ ⟨ms, _, hclaims⟩ => ?_
  refine sees_bind sees_answer fun typ _ _ _ => ?_
  refine sees_bind (sees_findLatest hG) fun kp _ _ _ => ?_
  refine sees_mono sees_answer fun token _ _ ⟨_, htoken⟩ => ?_
  subst hclaims
  exact ⟨kp, _, htoken, rfl, rfl, rfl, rfl, rfl⟩

theorem sees_buildIdToken {atHash scp : String} (hG : Allows G [] TokenSet.slots) :
    Sees Op.Possible G (buildIdToken data user client fp atHash lt nonce scp customs acf)
      (fun token _ => ∃ kp claims, data.signJwt kp (.id claims) = .ok token ∧
        (claims.subject = some user.id ∧ claims.nonce = nonce ∧ claims.custom.azp = client.id ∧
          claims.custom.cnf = fp.map JktClaim.mk) ∧
        claims.custom.amr = [(amrAuthTime data user acf 0).1]) tr := by
  refine sees_bind (sees_unixTimestamp hG.now) fun nowTs _ _ _ => ?_
  refine sees_bind (sees_of_touches (userValuesFor_touches _ _) (userValuesFor_noDel _ _) hG
    (by simp) (by simp [TokenSet.slots])) fun values _ _ _ => ?_
  refine sees_bind (sees_customClaims hG) fun custom _ _ _ => ?_
  refine sees_bind (sees_newClaims hG.now) fun claims _ _ ⟨ms, _, hclaims⟩ => ?_
  refine sees_bind sees_answer fun typ _ _ _ => ?_
  refine sees_bind (sees_findLatest hG) fun kp _ _ _ => ?_
  refine sees_mono sees_answer fun token _ _ ⟨_, htoken⟩ => ?_
  subst hclaims
  -- the method does not depend on the time
  exact ⟨kp, _, htoken, ⟨rfl, rfl, rfl, rfl⟩, by cases acf <;> rfl⟩

theorem sees_signRefreshToken {claims : JWTClaims JwtRefreshClaims}
    (hG : Allows G [] TokenSet.slots) :
    Sees Op.Possible G (signRefreshToken data claims) (fun token tr' => ∃ kp noise tr₁,
      tr' = ⟨.getRand 16, noise⟩ :: tr₁ ∧ tr <:+ tr₁ ∧
      data.signJwt kp (.refresh noise claims) = .ok token) tr := by
  refine sees_bind (sees_findLatest hG).suffix fun kp tr₁ _ ⟨hsuffix, _⟩ => ?_
  refine sees_bind (sees_getRand fun s => hG (.getRand 16) trivial trivial _ s)
    fun noise tr₂ _ htr₂ => ?_
  refine sees_mono sees_answer fun token tr₃ _ ⟨htr₃, htoken⟩ => ?_
  exact ⟨kp, noise, tr₁, htr₃.trans htr₂, hsuffix, htoken⟩

/-- A refresh token that is built has been signed, and its row written. -/
theorem sees_buildRefreshToken (hG : Allows G [] TokenSet.slots)
    (hrows : AllowsRows G data user client fp scope isMfa dcf) :
    Sees Op.Possible G (buildRefreshToken data user fp client lt scope isMfa dcf)
      (fun token tr' => RefreshIssued data user client fp scope isMfa dcf token tr') tr := by
  refine sees_bind (sees_newClaims hG.now) fun claims tr₁ _ ⟨ms, htr₁, hclaims⟩ => ?_
  refine sees_bind (sees_signRefreshToken hG) fun token tr₂ _ ⟨kp, noise, tr₂', htr₂, hsuf, htoken⟩ => ?_
  refine sees_bind sees_unwrap fun id tr₃ _ ⟨htr₃, hid⟩ => ?_
  refine sees_bind (sees_unixTimestamp hG.now) fun now tr₄ _ ⟨ms', htr₄, hnow⟩ => ?_
  have hsigned : RefreshSigned data user client fp noise token id (ms / 1000) tr₂' := by
    refine ⟨⟨kp, ?_⟩, hid, ms, hsuf.subset ?_, rfl⟩
    · rw [hclaims] at htoken
      exact htoken
    · rw [htr₁]
      exact List.mem_cons_self
  rw [htr₃, htr₂] at htr₄
  subst hnow htr₄
  -- both flows write one row and return the token
  cases dcf with
  | yes did =>
      refine sees_bind (sees_execute (hrows _ _ _ _ _ _ _ · hsigned)) fun _ tr₅ _ htr₅ => ?_
      exact sees_ret ⟨noise, id, ms / 1000, ms', lt, tr₂', hsigned, htr₅⟩
  | no =>
      have hcreate : Sees Op.Possible G (RefreshToken.create id user.id (ms' / 1000 + (lt - 60))
          (ms' / 1000 + (lt - 60) + data.refreshTokenLifetime * 3600) scope isMfa)
          (fun _ tr' => tr' = ⟨.execute [refreshRow data user id (ms' / 1000 + (lt - 60)) scope
            isMfa .no], .ok ()⟩ :: ⟨.now, ms'⟩ :: ⟨.getRand 16, noise⟩ :: tr₂')
          (⟨.now, ms'⟩ :: ⟨.getRand 16, noise⟩ :: tr₂') := by
        exact sees_bind (sees_execute (hrows _ _ _ _ _ _ _ · hsigned)) fun _ _ _ htr₅ =>
          sees_ret htr₅
      refine sees_bind hcreate fun _ tr₅ _ htr₅ => ?_
      exact sees_ret ⟨noise, id, ms / 1000, ms', lt, tr₂', hsigned, htr₅⟩

/-- What a token set of a user says, and the row of its refresh token. -/
theorem sees_fromUser (hG : Allows G [] TokenSet.slots)
    (hrows : AllowsRows G data user client fp scopes user.hasWebauthnEnabled dcf) :
    Sees Op.Possible G (TokenSet.fromUser data user client fp nonce scopes acf dcf)
      (fun ts tr' => ts.IsFor data user client fp nonce scopes dcf ∧
        ∀ token, ts.refreshToken = some token →
          RefreshIssued data user client fp scopes user.hasWebauthnEnabled dcf token tr') tr := by
  unfold TokenSet.fromUser
  refine sees_bind (sees_of_touches (TokenSet.customsOf_touches _ _)
    (TokenSet.customsOf_noDel _ _) hG (by simp)
    (by simp [TokenSet.slots])) fun ⟨ca, ci⟩ _ _ _ => ?_
  refine sees_bind (sees_of_touches (TokenSet.lifetimeOf_touches _ _)
    (TokenSet.lifetimeOf_noDel _ _) hG (by simp) (by simp))
    fun lt _ _ _ => ?_
  refine sees_bind (sees_buildAccessToken hG) fun accessToken _ _ haccess => ?_
  refine sees_bind sees_answer fun atHash _ _ _ => ?_
  refine sees_bind (sees_buildIdToken hG) fun idToken tr₁ _ hid => ?_
  have hrefresh : Sees Op.Possible G (refreshTokenFor data user fp client lt scopes dcf)
      (fun rt tr' => ∀ token, rt = some token →
        RefreshIssued data user client fp scopes user.hasWebauthnEnabled dcf token tr') tr₁ := by
    unfold refreshTokenFor
    split
    · refine sees_bind (sees_buildRefreshToken hG hrows) fun token tr₂ _ h => sees_ret ?_
      rintro _ ⟨⟩
      exact h
    · exact sees_ret fun token h => by cases h
  refine sees_bind hrefresh fun refreshToken tr₂ _ hrt => sees_ret ⟨⟨haccess, ?_, ?_⟩, hrt⟩
  · obtain ⟨kp, claims, hsign, hid, -⟩ := hid
    exact ⟨idToken, kp, claims, rfl, hsign, hid⟩
  · intro token htoken
    obtain ⟨noise, id, iat, ms, lt, tr₁, hsigned, -⟩ := hrt token htoken
    obtain ⟨kp, hsigned⟩ := hsigned.signed
    exact ⟨kp, noise, _, hsigned, rfl, rfl, rfl⟩

end Sees

end Rauthy
