/-
Rauthy/Emails.lean

The e-mails of the users.  Every request lowers the e-mail that it stores, and the lookup by
e-mail lowers what it looks for; a login with an upstream provider stores the e-mail of the
claims as the provider has written it, and the check that a changed e-mail is free then finds
the user itself.

Main result: `emails_lowered`, for the providers that write e-mails in lower case.
-/
import Rauthy.Federation
import Rauthy.PasswordReset

namespace Rauthy

open Prog Pool
open AuthProviderIdClaims (findUser linkUser updateUser forbiddenError)

/-! ### Registrations -/

structure NewUserRequest where
  email : String
  familyName : String
  givenName : String
  language : Language
  groups : Option (List String)
  roles : List String
  userExpires : Option Int
  deriving DecidableEq, Inhabited

structure NewUserRegistrationRequest where
  email : String
  familyName : String
  givenName : String
  pow : String
  redirectUri : Option String
  deriving DecidableEq, Inhabited

namespace User

/-- `User::default()`, with a new id. -/
def newDefault : M ErrorResponse User := do
  let id ← newStoreId
  let createdAt ← unixTimestamp
  return { id, email := "", givenName := "", familyName := "", password := none, roles := "",
           groups := none, enabled := true, emailVerified := false, passwordExpires := none,
           createdAt, lastLogin := none, lastFailedLogin := none, failedLoginAttempts := none,
           language := .en, webauthnUserId := none, userExpires := none, authProviderId := none,
           federationUid := none }

def fromNewUserReq (data : AppState) (newUser : NewUserRequest) : M ErrorResponse User := do
  let roles ← Role.sanitize newUser.roles
  let groups ← Group.sanitize newUser.groups
  let user ← newDefault
  return { user with
    email := data.toLowercase newUser.email, emailVerified := false
    givenName := newUser.givenName, familyName := newUser.familyName
    language := newUser.language, roles, groups, userExpires := newUser.userExpires }

/-- `User::create_from_new`: by an admin. -/
def createFromNew (data : AppState) (newUserReq : NewUserRequest) : M ErrorResponse User := do
  let newUser ← fromNewUserReq data newUserReq
  User.create data newUser none

/-- `User::create_from_reg`: from the open registration endpoint. -/
def createFromReg (data : AppState) (reqData : NewUserRegistrationRequest) (lang : Language) :
    M ErrorResponse User := do
  let user ← newDefault
  let newUser := { user with
    email := data.toLowercase reqData.email, givenName := reqData.givenName
    familyName := reqData.familyName, language := lang }
  User.create data newUser reqData.redirectUri

end User

/-! ### What is stored -/

/-- The e-mails of the users, of their copies and of the links that change them are in `P`. -/
def emailTyping (P : String → Prop) : Typing where
  row
    | .users, u => P u.email
    | .magicLinks, l => ∀ e, MagicLinkUsage.tryFrom l.usage = .ok (.emailChange e) → P e
    | _, _ => True
  entry
    | .users, _, .user u => P u.email
    | _, _, _ => True

section Typed

variable {P : String → Prop} {data : AppState} {α : Type}
  {userId : String} {usage : MagicLinkUsage} {user : User} {req : HttpRequest}
  {upd : UpdateUserRequest}

theorem emailTyping_users : (emailTyping P).ForUsers where
  copy _ _ := Iff.rfl
  stamp _ _ hu _ := hu
  session _ := trivial
  refreshToken _ := trivial
  cachedSession _ _ := trivial
  cached12hr _ _ := trivial

theorem emailTyped_of_touches {p : M ErrorResponse α} {ts : List Table}
    {cs : List (CacheName × Slot)} (hp : Touches ts cs p)
    (hts : ∀ t ∈ ts, t ≠ .users ∧ t ≠ .magicLinks) (hcs : (CacheName.users, Slot.user) ∉ cs) :
    Keeps sem (emailTyping P).Holds p fun _ => True := by
  refine typed_of_touches hp (fun t ht r => ?_) fun c k v hv => ?_
  · obtain ⟨h₁, h₂⟩ := hts t ht
    cases t <;> trivial
  · cases c <;> cases v <;> trivial

theorem emailTyped_of_pure {p : M ErrorResponse α} (hp : Touches [] [] p) :
    Keeps sem (emailTyping P).Holds p fun _ => True := emailTyped_of_touches hp (by simp) (by simp)

theorem emailTyped_createLink {minutes : Int}
    (husage : ∀ e, MagicLinkUsage.tryFrom usage.toStr = .ok (.emailChange e) → P e) :
    Keeps sem (emailTyping P).Holds (MagicLink.create userId minutes usage) fun _ => True := by
  refine keeps_bind (emailTyped_of_pure (touches_getRand 64)) fun id _ => ?_
  refine keeps_bind (emailTyped_of_pure touches_unixTimestamp) fun now _ => ?_
  refine keeps_bind (emailTyped_of_pure (touches_getRand 48)) fun csrf _ => ?_
  refine keeps_bind (typed_execute ?_) fun _ _ => keeps_ret trivial
  rw [List.forall_mem_singleton]
  exact husage

theorem emailTyped_saveLink (l : MagicLink) :
    Keeps sem (emailTyping P).Holds l.save fun _ => True := by
  refine typed_execute ?_
  rw [List.forall_mem_singleton]
  exact fun r hr _ => hr

theorem emailTyped_invalidate (l : MagicLink) :
    Keeps sem (emailTyping P).Holds l.invalidate fun _ => True :=
  keeps_bind (emailTyped_of_pure touches_unixTimestamp) fun _ _ => emailTyped_saveLink _

/-- A link for a password does not change an e-mail, whatever its redirect uri is. -/
theorem tryFrom_password (h : MagicLinkUsage.IsPassword usage) (e : String) :
    MagicLinkUsage.tryFrom usage.toStr ≠ .ok (.emailChange e) := by
  have hcustom : ∀ t uri : String, '$' ∉ t.toList → t ≠ "email_change" →
      MagicLinkUsage.tryFrom (t ++ "$" ++ uri) ≠ .ok (.emailChange e) := by
    intro t uri ht hne
    simp only [MagicLinkUsage.tryFrom, MagicLinkUsage.splitOnce_typ uri ht, Option.getD_some,
      if_neg hne]
    split
    · simp
    · split <;> simp
  cases usage with
  | newUser uri =>
      cases uri with
      | none =>
          rw [MagicLinkUsage.tryFrom_toStr _ (by simp [MagicLinkUsage.UriOk])]
          simp
      | some uri => exact hcustom "new_user" uri (by decide) (by decide)
  | passwordReset uri =>
      cases uri with
      | none =>
          rw [MagicLinkUsage.tryFrom_toStr _ (by simp [MagicLinkUsage.UriOk])]
          simp
      | some uri => exact hcustom "password_reset" uri (by decide) (by decide)
  | emailChange e => exact h.elim

theorem emailTyped_passwordLink {minutes : Int} (h : MagicLinkUsage.IsPassword usage) :
    Keeps sem (emailTyping P).Holds (MagicLink.create userId minutes usage) fun _ => True :=
  emailTyped_createLink fun e he => absurd he (tryFrom_password h e)

theorem emailTyped_insert {u : User} (hu : P u.email) :
    Keeps sem (emailTyping P).Holds (User.insert u) fun v => P v.email := by
  refine keeps_bind (typed_execute ?_) fun _ _ => ?_
  · rw [List.forall_mem_singleton]
    exact hu
  have hcount : Touches [] [(.c12hr, .count)] User.countInc :=
    touches_bind User.count_touches fun _ => touches_cachePut (by simp [CacheVal.slot]) _
  exact keeps_bind (emailTyped_of_touches hcount (by simp) (by simp)) fun _ _ => keeps_ret hu

theorem emailTyped_create {u : User} (hu : P u.email) (uri : Option String) :
    Keeps sem (emailTyping P).Holds (User.create data u uri) fun _ => True := by
  refine keeps_bind (emailTyped_insert hu) fun v _ => ?_
  exact keeps_bind (emailTyped_passwordLink trivial) fun _ _ => keeps_ret trivial

theorem emailTyped_createFromNew (hP : ∀ e, P (data.toLowercase e)) (req : NewUserRequest) :
    Keeps sem (emailTyping P).Holds (User.createFromNew data req) fun _ => True := by
  refine keeps_bind (F := fun u => P u.email) ?_ fun u hu => emailTyped_create hu none
  refine keeps_bind (emailTyped_of_touches (Role.sanitize_touches _) (by simp) (by simp))
    fun roles _ => ?_
  refine keeps_bind (emailTyped_of_touches (Group.sanitize_touches _) (by simp) (by simp))
    fun groups _ => ?_
  have hdefault : Touches [] [] User.newDefault :=
    touches_bind (touches_getRand 24) fun _ => touches_bind touches_unixTimestamp fun _ =>
      touches_ret _
  exact keeps_bind (emailTyped_of_pure hdefault) fun user _ => keeps_ret (hP req.email)

theorem emailTyped_createFromReg (hP : ∀ e, P (data.toLowercase e))
    (req : NewUserRegistrationRequest) (lang : Language) :
    Keeps sem (emailTyping P).Holds (User.createFromReg data req lang) fun _ => True := by
  have hdefault : Touches [] [] User.newDefault :=
    touches_bind (touches_getRand 24) fun _ => touches_bind touches_unixTimestamp fun _ =>
      touches_ret _
  refine keeps_bind (emailTyped_of_pure hdefault) fun user _ => ?_
  exact emailTyped_create (u := { user with
    email := data.toLowercase req.email, givenName := req.givenName
    familyName := req.familyName, language := lang }) (hP req.email) req.redirectUri

theorem emailTyped_endSessions (userId : String) :
    Keeps sem (emailTyping P).Holds (Session.invalidateForUser userId) fun _ => True :=
  emailTyped_of_touches (Session.invalidateForUser_touches userId) (by simp) (by simp)

theorem emailTyped_applyPasswordRules (hu : P user.email) (plain : String) :
    Keeps sem (emailTyping P).Holds (user.applyPasswordRules data plain)
      fun v => P v.email := by
  have hreturns : Returns (fun v => P v.email) (user.applyPasswordRules data plain) := by
    unfold User.applyPasswordRules
    refine returns_bind fun _ => returns_bind fun _ => returns_bind fun _ => ?_
    exact returns_bind fun _ => returns_bind fun _ => hu
  have htouches : Touches [.recentPasswords] [(.c12hr, .policy)]
      (user.applyPasswordRules data plain) := User.applyPasswordRules_touches plain
  exact keeps_mono ((emailTyped_of_touches htouches (by simp) (by simp)).returns hreturns)
    fun _ h => h.2

theorem emailTyped_updateFields (user : User) (hP : P (data.toLowercase upd.email)) :
    Keeps sem (emailTyping P).Holds (User.updateFields data user upd) fun v => P v.email := by
  refine keeps_bind (F := fun v => P v.email) ?_ fun v hv => ?_
  · unfold User.updatePassword
    split
    · exact emailTyped_applyPasswordRules (by exact hP) _
    · exact keeps_ret (by exact hP)
  refine keeps_bind (emailTyped_of_touches (Role.sanitize_touches _) (by simp) (by simp))
    fun roles _ => ?_
  refine keeps_bind (emailTyped_of_touches (Group.sanitize_touches _) (by simp) (by simp))
    fun groups _ => ?_
  exact keeps_ret hv

theorem emailTyped_update {id : String} {user : Option User} (hP : P (data.toLowercase upd.email)) :
    Keeps sem (emailTyping P).Holds (User.update data id upd user) fun _ => True := by
  refine keeps_bind (F := fun _ => True) ?_ fun old _ => ?_
  · cases user with
    | none => exact keeps_mono (emailTyping_users.find id) fun _ _ => trivial
    | some u => exact keeps_ret trivial
  refine keeps_bind (emailTyped_updateFields old hP) fun v hv => ?_
  refine keeps_bind (emailTyping_users.save hv data _) fun _ _ => ?_
  refine keeps_bind (keeps_runIf fun _ => emailTyped_endSessions v.id) fun _ _ => ?_
  refine keeps_bind (F := fun _ => True) ?_ fun _ _ => keeps_ret trivial
  cases upd.userValues with
  | none => exact keeps_ret trivial
  | some values => exact emailTyped_of_touches (UserValues.upsert_touches _ _) (by simp) (by simp)

theorem emailTyped_selfEmail (hP : ∀ e, P (data.toLowercase e)) (user : User)
    (email : Option String) :
    Keeps sem (emailTyping P).Holds (user.selfEmail data email) fun _ => True := by
  unfold User.selfEmail
  rcases email with - | email
  · exact keeps_ret trivial
  show Keeps sem _ (if data.toLowercase email ≠ user.email then _ else _) _
  split
  · refine keeps_bind (typed_execute ?_) fun _ _ => ?_
    · rw [List.forall_mem_singleton]
      trivial
    refine keeps_bind (emailTyped_createLink fun e he => ?_) fun _ _ => keeps_ret trivial
    have htry := MagicLinkUsage.tryFrom_toStr (.emailChange (data.toLowercase email)) trivial
    rw [htry] at he
    cases he
    exact hP email
  · exact keeps_ret trivial

/-- An expired password that is right sends a link to reset it. -/
theorem emailTyped_validatePassword (user : User) (plain : String) :
    Keeps sem (emailTyping P).Holds (user.validatePassword data plain) fun _ => True := by
  have hcompare : Keeps sem (emailTyping P).Holds (user.comparePassword data plain) fun _ => True := by
    have hmatch : Touches [] [] (user.matchPasswords data plain) := by
      unfold User.matchPasswords
      split
      · exact touches_fail _
      · exact touches_answer _
    exact emailTyped_of_pure (touches_bind hmatch fun _ => touches_throwIf _ _)
  refine keeps_bind keeps_throwIf fun _ _ => ?_
  split
  · exact hcompare
  · refine keeps_bind (emailTyped_of_pure touches_unixTimestamp) fun now _ => ?_
    split
    · refine keeps_bind keeps_throwIf fun _ _ => keeps_bind hcompare fun _ _ => ?_
      exact keeps_bind (emailTyped_passwordLink trivial) fun _ _ => keeps_fail
    · exact hcompare

theorem emailTyped_selfPassword (user : User) (upd : UpdateUserSelfRequest) :
    Keeps sem (emailTyping P).Holds (user.selfPassword data upd) fun _ => True := by
  unfold User.selfPassword
  split
  · exact keeps_ret trivial
  · split
    · exact keeps_bind (emailTyped_validatePassword user _) fun _ _ => keeps_ret trivial
    · exact keeps_bind (emailTyped_of_pure (user.checkMfaCode_touches _)) fun _ _ =>
        keeps_ret trivial
    · exact keeps_fail

theorem emailTyped_updateSelf (hP : ∀ e, P (data.toLowercase e)) (id : String)
    (upd : UpdateUserSelfRequest) :
    Keeps sem (emailTyping P).Holds (User.updateSelfReq data id upd) fun _ => True := by
  refine keeps_bind (emailTyping_users.find id) fun user _ => ?_
  refine keeps_bind (emailTyped_selfPassword user upd) fun password _ => ?_
  refine keeps_bind (emailTyped_selfEmail hP user upd.email) fun _ _ => ?_
  exact keeps_bind (emailTyped_update (hP _)) fun _ _ => keeps_ret trivial

theorem emailTyped_confirmEmail {confirmId : String} :
    Keeps sem (emailTyping P).Holds (User.confirmEmailAddress data req userId confirmId)
      fun _ => True := by
  refine keeps_bind (F := (emailTyping P).row .magicLinks)
    (keeps_mono typed_fetchOne fun _ h => h.1) fun ml hml => ?_
  refine keeps_bind (emailTyped_of_pure (ml.validate_touches data userId req false)) fun _ _ => ?_
  refine keeps_bind (keeps_answer fun u hu => hu) fun u hu => ?_
  refine keeps_bind (F := P) (keeps_answer fun email hemail => ?_) fun email hemail => ?_
  · cases u with
    | emailChange e =>
        cases hemail
        exact hml _ hu
    | newUser uri => cases hemail
    | passwordReset uri => cases hemail
  refine keeps_bind (emailTyping_users.find userId) fun user _ => ?_
  refine keeps_bind (emailTyping_users.save (by exact hemail) data (some user.email)) fun _ _ => ?_
  refine keeps_bind (emailTyped_invalidate ml) fun _ _ => ?_
  exact keeps_bind (emailTyped_endSessions user.id) fun _ _ => keeps_ret trivial

theorem emailTyped_passwordReset {reqData : PasswordResetRequest} :
    Keeps sem (emailTyping P).Holds (handlePutUserPasswordReset data req userId reqData)
      fun _ => True := by
  refine keeps_bind (emailTyping_users.find userId) fun user hu => ?_
  refine keeps_bind (emailTyped_of_pure (user.resetMfa_touches _)) fun _ _ => ?_
  refine keeps_bind (F := fun _ => True) (keeps_mono typed_fetchOne fun _ _ => trivial) fun ml _ => ?_
  refine keeps_bind (emailTyped_of_pure (ml.validate_touches data user.id req true)) fun _ _ => ?_
  refine keeps_bind (emailTyped_applyPasswordRules hu _) fun user hu => ?_
  refine keeps_bind (emailTyped_invalidate ml) fun _ _ => ?_
  refine keeps_bind (emailTyping_users.save (by exact hu) data none) fun _ _ => ?_
  refine keeps_bind (emailTyped_endSessions user.id) fun _ _ => ?_
  refine keeps_bind (F := fun _ => True) (keeps_answer fun u _ => trivial) fun u _ => ?_
  cases u <;> trivial

theorem emailTyped_providerUnlink (id : String) :
    Keeps sem (emailTyping P).Holds (User.providerUnlink data id) fun _ => True := by
  refine keeps_bind (emailTyping_users.find id) fun user hu => ?_
  refine keeps_bind keeps_throwIf fun _ _ => ?_
  exact keeps_bind (emailTyping_users.save (by exact hu) data none) fun _ _ => keeps_ret trivial

theorem emailTyped_convertToPasskey (id : String) :
    Keeps sem (emailTyping P).Holds (User.convertToPasskey data id) fun _ => True := by
  refine keeps_bind (emailTyping_users.find id) fun user hu => ?_
  refine keeps_bind keeps_throwIf fun _ _ => keeps_bind keeps_throwIf fun _ _ => ?_
  have hpks : Touches [] [(.webauthn, .passkeys)] (PasskeyEntity.findForUserWithUv user.id) :=
    touches_cached (touches_select _ _) (by simp [CacheVal.slot])
  refine keeps_bind (emailTyped_of_touches hpks (by simp) (by simp)) fun _ _ => ?_
  exact keeps_bind keeps_throwIf fun _ _ => emailTyping_users.save (by exact hu) data none

/-! ### Logins with a provider -/

variable {c : AuthProviderIdClaims} {provider : AuthProvider}

theorem emailTyped_findUser (cookie : Option AuthProviderLinkCookie) (email uid : String) :
    Keeps sem (emailTyping P).Holds (findUser data provider cookie email uid) fun found =>
      ∀ u, found = some u → P u.email := by
  refine keeps_bind (F := fun r => ∀ u, r = .ok u → P u.email) (keeps_tried (keeps_mono typed_fetchOne
    fun _ h => h.1)) fun r hr => ?_
  rcases r with e | user
  · refine keeps_bind (keeps_tried (emailTyping_users.findByEmail data email)) fun r hr => ?_
    rcases r with e | user
    · exact keeps_ret (by simp)
    · have huser := hr user rfl
      refine keeps_bind (F := fun u => P u.email) (keeps_answer fun u hu => ?_) fun u hu =>
        keeps_ret (by simpa using hu)
      obtain ⟨-, -, -, -, -, rfl⟩ := linkUser_ok hu
      exact huser
  · exact keeps_ret (by simpa using hr user rfl)

theorem emailTyped_updateUser {email uid : String} {admin : Option Bool} {now : Int}
    (hemail : P email) (huser : P user.email) :
    Keeps sem (emailTyping P).Holds (c.updateUser data provider email uid admin now user)
      fun _ => True := by
  unfold updateUser
  split
  · exact keeps_bind (emailTyping_users.save (by exact huser) data none) fun _ _ => keeps_fail
  · exact keeps_bind (emailTyping_users.save (by exact hemail) data _) fun _ _ => keeps_ret trivial

theorem emailTyped_validateUpdateUser (cookie : Option AuthProviderLinkCookie)
    (hclaims : ∀ e, c.email = some e → P e) :
    Keeps sem (emailTyping P).Holds (c.validateUpdateUser data provider cookie) fun _ => True := by
  refine keeps_bind (keeps_okOr fun email he => hclaims email he) fun email hemail => ?_
  refine keeps_bind (F := fun _ => True) (keeps_okOr fun _ _ => trivial) fun uid _ => ?_
  refine keeps_bind (emailTyped_findUser cookie email uid) fun found hfound => ?_
  refine keeps_bind (F := fun _ => True) (keeps_answer fun _ _ => trivial) fun admin _ => ?_
  refine keeps_bind (F := fun _ => True) (keeps_answer fun _ _ => trivial) fun mfa _ => ?_
  refine keeps_bind (emailTyped_of_pure touches_unixTimestamp) fun now _ => ?_
  refine keeps_bind (F := fun _ => True) ?_ fun user _ => ?_
  · cases found with
    | some user => exact emailTyped_updateUser hemail (hfound user rfl)
    | none =>
        refine keeps_bind (emailTyped_of_pure (touches_getRand 24)) fun id _ => ?_
        refine keeps_bind (emailTyped_of_pure touches_unixTimestamp) fun createdAt _ => ?_
        exact keeps_mono (emailTyped_insert (by exact hemail)) fun _ _ => trivial
  · exact keeps_bind (emailTyped_of_touches (saveValues_touches user.id) (by simp) (by simp))
      fun _ _ => keeps_ret trivial

/-- After the user has been found, a login stores no e-mail. -/
theorem emailTyped_providerLogin {slf : AuthProviderCallback} {mfa : ProviderMfaLogin}
    {session : Session} :
    Keeps sem (emailTyping P).Holds (providerLogin data req slf user mfa session)
      fun _ => True := by
  refine keeps_bind (emailTyped_of_touches (Client.findMaybeEphemeral_touches data _) (by simp)
    (by simp)) fun client _ => ?_
  refine keeps_bind (F := fun _ => True) ?_ fun session _ => ?_
  · unfold forceMfaSession
    split
    · exact keeps_bind keeps_throwIf fun _ _ =>
        emailTyped_of_touches (session.setMfa_touches true) (by simp) (by simp)
    · exact keeps_ret trivial
  refine keeps_bind (F := fun _ => True) (keeps_answer fun _ _ => trivial) fun _ _ => ?_
  refine keeps_bind (F := fun _ => True) (keeps_answer fun _ _ => trivial) fun _ _ => ?_
  refine keeps_bind (F := fun _ => True) (keeps_answer fun _ _ => trivial) fun origin _ => ?_
  refine keeps_bind (emailTyped_of_pure (AuthCode.new_touches ..)) fun code _ => ?_
  refine keeps_bind (typed_cachePut trivial) fun _ _ => ?_
  split
  · refine keeps_bind (emailTyped_of_pure (touches_getRand 48)) fun _ _ => ?_
    have hsave : ∀ d : WebauthnLoginReq, Keeps sem (emailTyping P).Holds d.save fun _ => True :=
      fun d => keeps_bind keeps_throwIf fun _ _ => typed_cachePut trivial
    exact keeps_bind (hsave _) fun _ _ => keeps_ret trivial
  · exact keeps_ret trivial

end Typed

/-- The providers answer with e-mails in `P`. -/
def ClaimsIn (P : String → Prop) : (o : Op) → o.Res → Prop
  | .exchangeUpstreamCode _ _, x => ∀ c e, x = .ok c → c.email = some e → P e
  | _, _ => True

theorem keeps_answering {α : Type} {A : (o : Op) → o.Res → Prop} {J : World → Prop}
    {p : M ErrorResponse α} {F : α → Prop} (h : Keeps sem J p F) : Keeps (answering sem A) J p F := by
  induction p with
  | ret a => exact h
  | fail e => trivial
  | call o k ih =>
      intro w x w' hJ hx
      obtain ⟨hJ', hk⟩ := h w x w' hJ hx.1
      exact ⟨hJ', ih x hk⟩

theorem emailTyped_loginFinish {P : String → Prop} {data : AppState} {req : HttpRequest}
    {payload : ProviderCallbackRequest} {session : Session} :
    Keeps (answering sem (ClaimsIn P)) (emailTyping P).Holds
      (loginFinish data req payload session) fun _ => True := by
  refine keeps_bind (keeps_answering (emailTyped_of_pure (checkCallback_touches ..))) fun slf _ => ?_
  have hfind : Touches [] [(.c12hr, .authProvider)] (AuthProvider.find slf.providerId) :=
    touches_cached (touches_fetchOne _ _) fun _ => by simp [CacheVal.slot]
  refine keeps_bind (keeps_answering (emailTyped_of_touches hfind (by simp) (by simp)))
    fun provider _ => ?_
  refine keeps_bind (F := fun c => ∀ e, c.email = some e → P e) ?_ fun c hc => ?_
  · intro w x w' hw hx
    have htouches : Op.Touches [] [] (.exchangeUpstreamCode provider payload.code) := trivial
    have hframe : Frame [] [] w w' := sem_frame htouches hx.1
    refine ⟨hw.frame (by simp) (by simp) hframe, ?_⟩
    cases x with
    | error e => trivial
    | ok c => exact fun e he => hx.2 c e rfl he
  refine keeps_answering (keeps_bind (emailTyped_validateUpdateUser _ hc) fun r _ => ?_)
  obtain ⟨user, mfa⟩ := r
  refine keeps_bind keeps_throwIf fun _ _ => ?_
  refine keeps_bind (F := fun _ => True) ?_ fun _ _ => ?_
  · unfold User.checkExpired
    split
    · exact keeps_ret trivial
    · exact keeps_bind (emailTyped_of_pure touches_unixTimestamp) fun _ _ =>
        keeps_mono keeps_throwIf fun _ _ => trivial
  · split
    · exact keeps_ret trivial
    · exact emailTyped_providerLogin

/-! ### All requests -/

/-- A request that stores no e-mail but those that it has read. -/
def KeepsEmails (p : M ErrorResponse Unit) : Prop :=
  ∀ P, Keeps sem (emailTyping P).Holds p fun _ => True

/-- The requests that create or change users, and others that store no new e-mail. -/
inductive EmailReq where
  | createFromNew (newUserReq : NewUserRequest)
  | createFromReg (reqData : NewUserRegistrationRequest) (lang : Language)
  | update (id : String) (upd : UpdateUserRequest)
  | updateSelfReq (id : String) (upd : UpdateUserSelfRequest)
  | confirmEmailAddress (req : HttpRequest) (userId confirmId : String)
  | loginFinish (req : HttpRequest) (payload : ProviderCallbackRequest) (session : Session)
  | passwordReset (req : HttpRequest) (userId : String) (reqData : PasswordResetRequest)
  | providerUnlink (id : String)
  | convertToPasskey (id : String)
  | other (p : M ErrorResponse Unit) (h : KeepsEmails p)

def EmailReq.prog (data : AppState) : EmailReq → M ErrorResponse Unit
  | createFromNew newUserReq => do let _ ← User.createFromNew data newUserReq
  | createFromReg reqData lang => do let _ ← User.createFromReg data reqData lang
  | update id upd => do let _ ← User.update data id upd none
  | updateSelfReq id upd => do let _ ← User.updateSelfReq data id upd
  | confirmEmailAddress req userId confirmId => do
      let _ ← User.confirmEmailAddress data req userId confirmId
  | loginFinish req payload session => do let _ ← Rauthy.loginFinish data req payload session
  | passwordReset req userId reqData => do let _ ← handlePutUserPasswordReset data req userId reqData
  | providerUnlink id => do let _ ← User.providerUnlink data id
  | convertToPasskey id => User.convertToPasskey data id
  | other p _ => p

theorem keeps_emailReq {P : String → Prop} {data : AppState} (hP : ∀ e, P (data.toLowercase e))
    (q : EmailReq) :
    Keeps (answering sem (ClaimsIn P)) (emailTyping P).Holds (q.prog data) fun _ => True := by
  cases q with
  | createFromNew req =>
      exact keeps_answering (keeps_bind (emailTyped_createFromNew hP req) fun _ _ => trivial)
  | createFromReg req lang =>
      exact keeps_answering (keeps_bind (emailTyped_createFromReg hP req lang) fun _ _ => trivial)
  | update id upd => exact keeps_answering (keeps_bind (emailTyped_update (hP _)) fun _ _ => trivial)
  | updateSelfReq id upd =>
      exact keeps_answering (keeps_bind (emailTyped_updateSelf hP id upd) fun _ _ => trivial)
  | confirmEmailAddress req userId confirmId =>
      exact keeps_answering (keeps_bind emailTyped_confirmEmail fun _ _ => trivial)
  | loginFinish req payload session =>
      exact keeps_bind emailTyped_loginFinish fun _ _ => trivial
  | passwordReset req userId reqData =>
      exact keeps_answering (keeps_bind emailTyped_passwordReset fun _ _ => trivial)
  | providerUnlink id =>
      exact keeps_answering (keeps_bind (emailTyped_providerUnlink id) fun _ _ => trivial)
  | convertToPasskey id => exact keeps_answering (emailTyped_convertToPasskey id)
  | other p h => exact keeps_answering (h P)

theorem keeps_uniqueEmails {α : Type} {A : (o : Op) → o.Res → Prop} (p : M ErrorResponse α) :
    Keeps (answering sem A) (fun w => UniqueEmails w.db) p fun _ => True := by
  induction p with
  | ret a => trivial
  | fail e => trivial
  | call o k ih =>
      intro w x w' hw hx
      refine ⟨?_, ih x⟩
      cases o with
      | execute ss =>
          rcases sem_execute.mp hx.1 with ⟨e, -, rfl⟩ | ⟨db, hdb, rfl⟩
          · exact hw
          · exact hdb.unique hw
      | cachePut c' k' v =>
          have htouches : Op.Touches [] [(c', v.slot)] (.cachePut c' k' v) := List.mem_singleton_self _
          show UniqueKey User.email (w'.db .users)
          rw [(sem_frame htouches hx.1).db .users (by simp)]
          exact hw
      | _ =>
          have hframe : Frame [] [] w w' := sem_frame (by trivial) hx.1
          show UniqueKey User.email (w'.db .users)
          rw [hframe.db .users (by simp)]
          exact hw

/-! ### The e-mails in every state -/

/-- The lowered e-mail is stored. -/
def Lowered (data : AppState) (e : String) : Prop := data.toLowercase e = e

/-- What should hold of the e-mails, for logins with claims in `A`: they are lower case, no two of
them are equal when case is ignored, and a user that is linked to the identity of the claims can
log in although the e-mail of the claims is written in another way. -/
structure EmailsOk (data : AppState) (A : AuthProviderIdClaims → Prop) (w : World) : Prop where
  lower : ∀ u ∈ w.db .users, Lowered data u.email
  distinct : UniqueKey (fun u : User => data.toLowercase u.email) (w.db .users)
  login : ∀ (c : AuthProviderIdClaims) (provider : AuthProvider) (cookie : Option AuthProviderLinkCookie)
    (u : User) (email uid : String), A c → c.email = some email → c.userIdOf = some uid →
    rowBy (fun u => u.authProviderId == some provider.id && u.federationUid == some uid)
      (w.db .users) = .ok u →
    data.toLowercase email = data.toLowercase u.email →
    (∃ admin, c.hasClaim data "admin" provider.adminClaimPath provider.adminClaimValue = .ok admin) →
    (∃ mfa, c.hasClaim data "mfa" provider.mfaClaimPath provider.mfaClaimValue = .ok mfa) →
    Outcomes semUp (c.validateUpdateUser data provider cookie) w fun r _ => ∃ x, r = .ok x

section Login

variable {data : AppState} {c : AuthProviderIdClaims} {provider : AuthProvider} {u : User}
  {w : World} {email uid : String} {α : Type}

theorem answered_resave (u : User) :
    Outcomes semUp (u.save data none) w fun r _ => r = .ok () := by
  refine outcomes_bind (outcomes_ret (outcomes_bind (answered_execute fun db _ => ?_)))
  refine outcomes_bind (outcomes_mono answered_disable fun r w₁ hr => ?_)
  obtain ⟨rfl, -⟩ := hr
  refine outcomes_bind (outcomes_ret (outcomes_bind ?_))
  exact answered_cachePut (answered_cachePut rfl)

theorem answered_saveValues (id : String) :
    Outcomes semUp (c.saveValues id) w fun r _ => r = .ok () := by
  refine outcomes_bind (outcomes_mono (answered_findValues id) fun r w₁ hr => ?_)
  obtain ⟨values, rfl⟩ := hr
  unfold runIf
  dsimp only
  split
  · refine outcomes_bind (outcomes_bind (answered_execute fun db _ => ?_))
    exact outcomes_bind (answered_cachePut (outcomes_ret (outcomes_ret rfl)))
  · exact outcomes_ret rfl

theorem linkedTo_of_rowBy {rows : List User}
    (h : rowBy (fun u => u.authProviderId == some provider.id && u.federationUid == some uid) rows =
      .ok u) :
    (rows.filter fun u => u.authProviderId == some provider.id &&
      u.federationUid == some uid).head? = some u ∧ LinkedTo provider uid u := by
  unfold rowBy at h
  split at h
  · next v hv =>
      cases h
      have hmem := List.mem_of_mem_head? hv
      simp only [List.mem_filter, Bool.and_eq_true, beq_iff_eq] at hmem
      exact ⟨hv, hmem.2⟩
  · cases h

/-- **A linked user logs in** with its e-mail, if the stores answer and the claims that are
configured can be looked up. -/
theorem linked_logs_in {cookie : Option AuthProviderLinkCookie} {admin mfa : Option Bool}
    (hemail : c.email = some u.email) (huid : c.userIdOf = some uid)
    (hrow : rowBy (fun u => u.authProviderId == some provider.id && u.federationUid == some uid)
      (w.db .users) = .ok u)
    (hadmin : c.hasClaim data "admin" provider.adminClaimPath provider.adminClaimValue = .ok admin)
    (hmfa : c.hasClaim data "mfa" provider.mfaClaimPath provider.mfaClaimValue = .ok mfa) :
    Outcomes semUp (c.validateUpdateUser data provider cookie) w fun r _ => ∃ x, r = .ok x := by
  obtain ⟨hhead, hlink⟩ := linkedTo_of_rowBy hrow
  refine outcomes_bind (outcomes_okOr (fun email' he => ?_) fun hno => by simp [hemail] at hno)
  refine outcomes_bind (outcomes_okOr (fun uid' hu => ?_) fun hno => by simp [huid] at hno)
  obtain rfl : u.email = email' := Option.some.inj (hemail.symm.trans he)
  obtain rfl : uid = uid' := Option.some.inj (huid.symm.trans hu)
  -- the lookup by federation finds the user
  refine outcomes_bind (outcomes_bind (outcomes_tried (answered_fetchOne (fun v hv => ?_)
    fun hno => ?_)))
  swap
  · rw [hhead] at hno
    cases hno
  obtain rfl : u = v := Option.some.inj (hhead.symm.trans hv)
  refine outcomes_ret (outcomes_bind (outcomes_answer (fun a _ => ?_) fun e he => ?_))
  swap
  · rw [hadmin] at he
    cases he
  refine outcomes_bind (outcomes_answer (fun m _ => ?_) fun e he => ?_)
  swap
  · rw [hmfa] at he
    cases he
  refine outcomes_bind (answered_unixTimestamp fun ms _ => outcomes_bind ?_)
  have hno : forbiddenError provider uid u = none := by
    simp [forbiddenError, hlink.1, hlink.2]
  -- the e-mail is the same, so it is not checked that it is free
  have hlogin : Outcomes semUp (c.loginUser data provider u.email uid a (ms / 1000) (some u))
      { w with clock := ms } fun r _ => ∃ v, r = .ok v := by
    simp only [AuthProviderIdClaims.loginUser, updateUser, hno, ne_eq, not_true_eq_false, if_false]
    refine outcomes_bind (outcomes_mono (answered_resave _) fun r w₁ hr => ?_)
    subst hr
    exact outcomes_ret ⟨_, rfl⟩
  refine outcomes_mono hlogin fun r w₁ hr => ?_
  obtain ⟨v, rfl⟩ := hr
  refine outcomes_bind (outcomes_mono (answered_saveValues v.id) fun r w₂ hr => ?_)
  subst hr
  exact outcomes_ret ⟨_, rfl⟩

end Login

/-- **E-mails are lower case, and unique when case is ignored**, and linked users can log in, in
every interleaving of the requests in which the providers answer with e-mails in lower case. -/
theorem emails_lowered {data : AppState}
    (hlow : ∀ s, data.toLowercase (data.toLowercase s) = data.toLowercase s) {w₀ : World}
    (hw₀ : (emailTyping (Lowered data)).Holds w₀) (hunique : UniqueEmails w₀.db)
    {P : Pool EmailReq Op Op.Res World (Fault ErrorResponse) Unit}
    (h : Run (EmailReq.prog data) (answering sem (ClaimsIn (Lowered data))) (fun _ _ _ => True)
      (init w₀) P) :
    EmailsOk data (fun c => ∀ e, c.email = some e → Lowered data e) P.world := by
  have htyped := (h.keeps (F := fun _ _ => True) hw₀ fun _ _ _ q _ => keeps_emailReq hlow q).1
  have hemails := (h.keeps (I := fun w : World => UniqueEmails w.db) (F := fun _ _ => True) hunique
    fun _ _ _ q _ => keeps_uniqueEmails (q.prog data)).1
  have hlower : ∀ u ∈ P.world.db .users, Lowered data u.email := htyped.rows .users
  refine ⟨hlower, ?_, ?_⟩
  · have hsame : (P.world.db .users).map (fun u => data.toLowercase u.email) =
        (P.world.db .users).map User.email := List.map_congr_left hlower
    show ((P.world.db .users).map fun u => data.toLowercase u.email).Nodup
    rw [hsame]
    exact hemails
  · rintro c provider cookie u email uid hA hemail huid hrow hcase ⟨admin, hadmin⟩ ⟨mfa, hmfa⟩
    have hu : u ∈ P.world.db .users :=
      (List.mem_filter.mp (List.mem_of_mem_head? (linkedTo_of_rowBy hrow).1)).1
    have hsame : email = u.email := calc
      email = data.toLowercase email := (hA email hemail).symm
      _ = data.toLowercase u.email := hcase
      _ = u.email := hlower u hu
    exact linked_logs_in (hsame ▸ hemail) huid hrow hadmin hmfa

/-! ### A provider with another spelling -/

/-- A library that lowers the e-mail of alice. -/
def lowerState : AppState :=
  { federationState with
    toLowercase := fun s => if s = "Alice@localhost" then "alice@localhost" else s }

theorem lowerState_idem (s : String) :
    lowerState.toLowercase (lowerState.toLowercase s) = lowerState.toLowercase s := by
  by_cases hs : s = "Alice@localhost"
  · rw [hs]
    rfl
  · have hsame : lowerState.toLowercase s = s := if_neg hs
    rw [hsame, hsame]

/-- A login with the provider, which creates the user. -/
def loginMoves (c : AuthProviderIdClaims) : List (Move EmailReq Choice) :=
  [.start 0 (.loginFinish { linkRequest with providerLinkCookie := none } linkPayload default),
   .op 0 .ok, .op 0 .ok, .op 0 (.claims c), .op 0 .ok, .op 0 .ok, .op 0 .ok, .op 0 (.time 0),
   .op 0 (.rand "abcdefghijklmnopqrstuvwx"), .op 0 (.time 0), .op 0 .ok]

theorem callbackWorld_holds :
    (emailTyping (Lowered lowerState)).Holds (callbackWorld []) where
  rows t r hr := by cases t <;> cases hr
  entries c k v hv := by
    cases c with
    | users => cases hv
    | _ => cases v <;> trivial

/-- The outcome of an operation under a choice, the provider answering with the claims of
alice. -/
def Op.runLower (ch : Choice) (o : Op) (w : World) : Option (o.Res × World) :=
  match o, ch with
  | .exchangeUpstreamCode _ _, .claims c => if c = sampleClaims then some (.ok c, w) else none
  | o, ch => Op.run ch o w

theorem answering_of_runLower {o : Op} {w w' : World} {x : o.Res}
    (h : Pool.semOf Op.runLower o w x w') :
    answering sem (ClaimsIn (Lowered lowerState)) o w x w' := by
  obtain ⟨ch, hch⟩ := h
  cases o with
  | exchangeUpstreamCode provider code =>
      cases ch with
      | claims c =>
          simp only [Op.runLower] at hch
          split at hch
          · next hc =>
              cases hch
              refine ⟨⟨.claims c, rfl⟩, fun c' e hc' he => ?_⟩
              cases hc'
              subst hc
              cases he
              rfl
          · cases hch
      | fail e applied => cases hch; exact ⟨⟨.fail e applied, rfl⟩, fun _ _ h => by cases h⟩
      | _ => cases hch
  | _ => exact ⟨⟨ch, hch⟩, trivial⟩

theorem emails_lowered_alice : ∃ P,
    Run (EmailReq.prog lowerState) (answering sem (ClaimsIn (Lowered lowerState))) (fun _ _ _ => True)
      (init (callbackWorld [])) P ∧
    (P.world.db .users).map User.email = ["alice@localhost"] ∧
    EmailsOk lowerState (fun c => ∀ e, c.email = some e → Lowered lowerState e) P.world := by
  obtain ⟨P, hrun, hrows⟩ := exists_run_of_moves (C := fun _ _ _ => True) (EmailReq.prog lowerState)
    Op.runLower (fun _ _ _ => true) (callbackWorld []) (loginMoves sampleClaims)
    (fun P => (P.world.db .users).map User.email == ["alice@localhost"]) (by decide +kernel)
    (fun _ _ _ _ => trivial)
  have hrun := hrun.of_sem fun _ _ _ _ => answering_of_runLower
  exact ⟨P, hrun, beq_iff_eq.mp hrows,
    emails_lowered lowerState_idem callbackWorld_holds List.nodup_nil hrun⟩

/-- The provider writes the e-mail of alice with a capital letter. -/
theorem stored_as_claimed :
    ¬ ∀ (data : AppState) (w₀ : World)
        (P : Pool EmailReq Op Op.Res World (Fault ErrorResponse) Unit),
      (∀ s, data.toLowercase (data.toLowercase s) = data.toLowercase s) →
      (emailTyping (Lowered data)).Holds w₀ → UniqueEmails w₀.db →
      Run (EmailReq.prog data) sem (fun _ _ _ => True) (init w₀) P →
      EmailsOk data (fun _ => True) P.world := by
  intro hall
  obtain ⟨P, hrun, hrows⟩ := exists_run_of_moves (C := fun _ _ _ => True) (EmailReq.prog lowerState)
    Op.run (fun _ _ _ => true) (callbackWorld [])
    (loginMoves { sampleClaims with email := some "Alice@localhost" })
    (fun P => (P.world.db .users).any (·.email == "Alice@localhost")) (by decide +kernel)
    (fun _ _ _ _ => trivial)
  have hok := hall lowerState _ P lowerState_idem callbackWorld_holds List.nodup_nil hrun
  obtain ⟨u, hu, he⟩ := List.any_eq_true.mp hrows
  have hlow := hok.lower u hu
  rw [beq_iff_eq.mp he] at hlow
  have hne : "alice@localhost" = "Alice@localhost" := hlow
  exact absurd hne (by decide)

end Rauthy
