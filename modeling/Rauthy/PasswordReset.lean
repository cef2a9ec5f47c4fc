/-
Rauthy/PasswordReset.lean

The requests with a magic link: `rauthy-service/src/password_reset.rs` and
`User::confirm_email_address`.  One table of links serves three purposes, and `validate` does not
look at the purpose: each handler has to do that for itself.

Main result: `usage_checked_iff`, for which handlers and usages every request with a link of
another usage is rejected before anything is changed.
-/
import Rauthy.Account
import Rauthy.Pointwise
import Rauthy.UserCaches

namespace Rauthy

open Prog

/-! ### The handlers -/

structure PwdResetResponse where
  csrfToken : String
  rules : PasswordPolicy
  needsMfa : Bool
  /-- the binding cookie and its lifetime -/
  cookie : String
  maxAge : Int
  deriving DecidableEq, Inhabited

/-- `handle_get_pwd_reset`: what the page and the cookie are built from. -/
def handleGetPwdReset (data : AppState) (req : HttpRequest) (userId resetId : String) :
    M ErrorResponse PwdResetResponse := do
  let ml ← MagicLink.find resetId
  ml.validate data userId req false
  let user ← User.find ml.userId
  let rules ← PasswordPolicy.find
  let cookieVal ← getRand 48
  -- the link is saved as it was read, but for the cookie
  MagicLink.save { ml with cookie := some cookieVal }
  let now ← unixTimestamp
  return { csrfToken := ml.csrfToken, rules, needsMfa := user.hasWebauthnEnabled,
           cookie := cookieVal, maxAge := ml.exp - now }

structure WebauthnRegStartRequest where
  passkeyName : String
  email : Option String
  magicLinkId : String
  deriving DecidableEq, Inhabited

structure WebauthnRegFinishRequest where
  passkeyName : String
  /-- the public key credential of the new passkey -/
  data : String
  magicLinkId : String
  deriving DecidableEq, Inhabited

/-- Passkeys are registered with the link of a new user only. -/
def checkNewUser : MagicLinkUsage → Except ErrorResponse Unit
  | .newUser _ => .ok ()
  | _ => .error ⟨.forbidden, "You cannot register a new passkey here for an existing user"⟩

/-- `handle_put_user_passkey_start` -/
def handlePutUserPasskeyStart (data : AppState) (req : HttpRequest) (userId : String)
    (reqData : WebauthnRegStartRequest) : M ErrorResponse PasskeyRegistration := do
  let user ← User.find userId
  throwIf (reqData.email ≠ some user.email) (err .badRequest "E-Mail does not match for this user")
  let ml ← MagicLink.find reqData.magicLinkId
  ml.validate data user.id req true
  let usage ← answer (MagicLinkUsage.tryFrom ml.usage)
  answer (checkNewUser usage)
  regStart user.id reqData.passkeyName

/-- `handle_put_user_passkey_finish`: the usage of the link is not checked again. -/
def handlePutUserPasskeyFinish (data : AppState) (req : HttpRequest) (userId : String)
    (reqData : WebauthnRegFinishRequest) : M ErrorResponse Unit := do
  let ml ← MagicLink.find reqData.magicLinkId
  ml.validate data userId req true
  regFinish data userId reqData.passkeyName reqData.data
  answer (ml.validateLinkCsrf req)
  ml.invalidate
  let user ← User.find userId
  User.save data { user with emailVerified := true } none

/-- The address that a link confirms. -/
def confirmedEmail : MagicLinkUsage → Except ErrorResponse String
  | .emailChange email => .ok email
  | _ => .error ⟨.badRequest,
      "The Magic Link is not meant to be used to confirm an E-Mail address"⟩

/-- `User::confirm_email_address`: the old and the new address. -/
def User.confirmEmailAddress (data : AppState) (req : HttpRequest) (userId confirmId : String) :
    M ErrorResponse (String × String) := do
  let ml ← MagicLink.find confirmId
  ml.validate data userId req false
  let usage ← answer (MagicLinkUsage.tryFrom ml.usage)
  let newEmail ← answer (confirmedEmail usage)
  let user ← User.find userId
  let oldEmail := user.email
  let user := { user with email := newEmail, emailVerified := true }
  user.save data (some oldEmail)
  ml.invalidate
  Session.invalidateForUser user.id
  return (oldEmail, user.email)

/-! ### What a link may be used for -/

namespace MagicLinkUsage

/-- A custom redirect uri is not empty. -/
def UriOk : MagicLinkUsage → Prop
  | newUser uri => uri ≠ some ""
  | passwordReset uri => uri ≠ some ""
  | emailChange _ => True

theorem splitOnce_typ {t : String} (v : String) (h : '$' ∉ t.toList) :
    Text.splitOnce (t ++ "$" ++ v) "$" = some (t, v) := by
  have hlist : (t ++ "$" ++ v).toList = t.toList ++ '$' :: v.toList := by simp
  have hsep : "$".toList = ['$'] := rfl
  rw [Text.splitOnce, hlist, hsep, Text.splitOnceList_char h]
  simp

theorem splitOnce_bare {t : String} (h : '$' ∉ t.toList) : Text.splitOnce t "$" = none := by
  have hsep : "$".toList = ['$'] := rfl
  rw [Text.splitOnce, hsep, Text.splitOnceList_char_none h]
  rfl

/-- **A usage is read back** as it was stored. -/
theorem tryFrom_toStr (u : MagicLinkUsage) (h : u.UriOk) : tryFrom u.toStr = .ok u := by
  cases u with
  | emailChange email =>
      have hsplit : Text.splitOnce ("email_change$" ++ email) "$" = some ("email_change", email) :=
        splitOnce_typ (t := "email_change") email (by decide)
      simp [tryFrom, toStr, hsplit]
  | newUser uri =>
      rcases uri with - | uri
      · simp [tryFrom, toStr, splitOnce_bare (t := "new_user") (by decide)]
      · have hsplit : Text.splitOnce ("new_user$" ++ uri) "$" = some ("new_user", uri) :=
          splitOnce_typ (t := "new_user") uri (by decide)
        have hne : uri ≠ "" := fun he => h (by rw [he])
        simp [tryFrom, toStr, hsplit, hne]
  | passwordReset uri =>
      rcases uri with - | uri
      · simp [tryFrom, toStr, splitOnce_bare (t := "password_reset") (by decide)]
      · have hsplit : Text.splitOnce ("password_reset$" ++ uri) "$" = some ("password_reset", uri) :=
          splitOnce_typ (t := "password_reset") uri (by decide)
        have hne : uri ≠ "" := fun he => h (by rw [he])
        simp [tryFrom, toStr, hsplit, hne]

/-- A value that was parsed has no empty address: an empty one was taken for a missing one. -/
theorem tryFrom_uriOk {s : String} {u : MagicLinkUsage} (h : tryFrom s = .ok u) : u.UriOk := by
  have hopt : ∀ v : String, (if v = "" then none else some v) ≠ some "" := by
    intro v
    by_cases hv : v = ""
    · simp [hv]
    · rw [if_neg hv]
      exact fun he => hv (Option.some.inj he)
  unfold tryFrom at h
  generalize (Text.splitOnce s "$").getD (s, "") = cut at h
  obtain ⟨ty, v⟩ := cut
  dsimp only at h
  by_cases hemail : ty = "email_change"
  · rw [if_pos hemail] at h
    cases h
    exact trivial
  by_cases hnew : ty = "new_user"
  · rw [if_neg hemail, if_pos hnew] at h
    obtain rfl := Except.ok.inj h
    exact hopt v
  by_cases hreset : ty = "password_reset"
  · rw [if_neg hemail, if_neg hnew, if_pos hreset] at h
    obtain rfl := Except.ok.inj h
    exact hopt v
  · rw [if_neg hemail, if_neg hnew, if_neg hreset] at h
    cases h

/-- **Usages survive their text**: those without an empty address, whatever stands in the address,
and all that were parsed before. -/
theorem usage_round_trip :
    (∀ u : MagicLinkUsage, u.UriOk → tryFrom u.toStr = .ok u) ∧
      ∀ (s : String) (u : MagicLinkUsage), tryFrom s = .ok u → tryFrom u.toStr = .ok u :=
  ⟨tryFrom_toStr, fun _ u h => tryFrom_toStr u (tryFrom_uriOk h)⟩

/-- An address that looks like a usage itself. -/
theorem usage_round_trip_dollar :
    tryFrom (newUser (some "https://a.b/?x=$password_reset$")).toStr =
        .ok (newUser (some "https://a.b/?x=$password_reset$")) ∧
      tryFrom (emailChange "$new_user").toStr = .ok (emailChange "$new_user") :=
  ⟨usage_round_trip.1 _ (by simp [UriOk]), usage_round_trip.2 "email_change$$new_user" _ (by decide)⟩

/-- A link to set a password, the first one or a new one. -/
def IsPassword : MagicLinkUsage → Prop
  | newUser _ => True
  | passwordReset _ => True
  | emailChange _ => False

def IsNewUser : MagicLinkUsage → Prop
  | newUser _ => True
  | _ => False

def IsEmailChange : MagicLinkUsage → Prop
  | emailChange _ => True
  | _ => False

/-- The stored usage can be read and is such a one. -/
def Meant (P : MagicLinkUsage → Prop) (usage : String) : Prop := ∃ u, tryFrom usage = .ok u ∧ P u

end MagicLinkUsage

open MagicLinkUsage

inductive LinkHandler where
  | getPwdReset
  | passkeyStart
  | passkeyFinish
  | passwordReset
  | confirmEmail

/-- The usages that the handler is there for. -/
def LinkHandler.Serves : LinkHandler → MagicLinkUsage → Prop
  | getPwdReset => IsPassword
  | passkeyStart => IsNewUser
  | passkeyFinish => IsNewUser
  | passwordReset => IsPassword
  | confirmEmail => IsEmailChange

/-- A request that presents a link. -/
inductive LinkRequest where
  | getPwdReset (userId resetId : String)
  | passkeyStart (userId : String) (reqData : WebauthnRegStartRequest)
  | passkeyFinish (userId : String) (reqData : WebauthnRegFinishRequest)
  | passwordReset (userId : String) (reqData : PasswordResetRequest)
  | confirmEmail (userId confirmId : String)

namespace LinkRequest

def handler : LinkRequest → LinkHandler
  | getPwdReset _ _ => .getPwdReset
  | passkeyStart _ _ => .passkeyStart
  | passkeyFinish _ _ => .passkeyFinish
  | passwordReset _ _ => .passwordReset
  | confirmEmail _ _ => .confirmEmail

/-- The id of the link. -/
def link : LinkRequest → String
  | getPwdReset _ resetId => resetId
  | passkeyStart _ reqData => reqData.magicLinkId
  | passkeyFinish _ reqData => reqData.magicLinkId
  | passwordReset _ reqData => reqData.magicLinkId
  | confirmEmail _ confirmId => confirmId

def prog (data : AppState) (req : HttpRequest) : LinkRequest → M ErrorResponse Unit
  | getPwdReset userId resetId => do let _ ← handleGetPwdReset data req userId resetId
  | passkeyStart userId reqData => do let _ ← handlePutUserPasskeyStart data req userId reqData
  | passkeyFinish userId reqData => handlePutUserPasskeyFinish data req userId reqData
  | passwordReset userId reqData => do let _ ← handlePutUserPasswordReset data req userId reqData
  | confirmEmail userId confirmId => do let _ ← User.confirmEmailAddress data req userId confirmId

end LinkRequest

/-- Every cached user is a row. -/
def UsersCurrent (w : World) : Prop :=
  ∀ k u, w.cache .users k = some (.user u) → u ∈ w.db .users

/-- **What the link of this usage allows a request to do.**  Passwords are set with a link for
passwords, passkeys are registered with the link of a new user, an e-mail becomes the address in
the link, and a link of another usage is rejected with nothing changed. -/
structure LinkRespected (handler : LinkHandler) (usage : String)
    (r : Except (Fault ErrorResponse) Unit) (w w' : World) : Prop where
  password : ∀ u' ∈ w'.db .users,
    (∃ u ∈ w.db .users, u.id = u'.id ∧ u.password = u'.password) ∨ Meant IsPassword usage
  passkey : ∀ pk ∈ w'.db .passkeys, pk ∈ w.db .passkeys ∨ Meant IsNewUser usage
  email : ∀ u' ∈ w'.db .users,
    (∃ u ∈ w.db .users, u.id = u'.id ∧ u.email = u'.email) ∨
      tryFrom usage = .ok (.emailChange u'.email)
  rejected : ¬ Meant handler.Serves usage → (∃ e, r = .error e) ∧ w'.db = w.db

/-! ### Links of another usage -/

section Rejected

variable {w₀ : World} {usage : String} {α : Type}

theorem unchanged_of_touches {p : M ErrorResponse α} {cs : List (CacheName × Slot)}
    (hp : Touches [] cs p) : Keeps sem (fun w => w.db = w₀.db) p fun _ => True :=
  keeps_of_touches hp fun _ _ hf h => (funext fun t => hf.db t (by simp)).trans h

theorem unchanged_findLink {id : String}
    (husage : ∀ l ∈ w₀.db .magicLinks, l.id = id → l.usage = usage) :
    Keeps sem (fun w => w.db = w₀.db) (MagicLink.find id) fun l => l.usage = usage :=
  keeps_fetchOne fun w l hw hl hid => by
    rw [hw] at hl
    exact husage l hl (beq_iff_eq.mp hid)

theorem unchanged_passkeyStart {data : AppState} {req : HttpRequest} {userId : String}
    {reqData : WebauthnRegStartRequest}
    (husage : ∀ l ∈ w₀.db .magicLinks, l.id = reqData.magicLinkId → l.usage = usage)
    (hother : ¬ Meant IsNewUser usage) :
    Keeps sem (fun w => w.db = w₀.db) (handlePutUserPasskeyStart data req userId reqData)
      fun _ => False := by
  refine keeps_bind (unchanged_of_touches (User.find_touches userId)) fun user _ => ?_
  refine keeps_bind keeps_throwIf fun _ _ => ?_
  refine keeps_bind (unchanged_findLink husage) fun ml hml => ?_
  refine keeps_bind (unchanged_of_touches (ml.validate_touches data user.id req true)) fun _ _ => ?_
  refine keeps_bind (keeps_answer fun u hu => hu) fun u hu => ?_
  refine keeps_bind (F := fun _ => False) (keeps_answer fun _ hok => ?_) fun _ hno => hno.elim
  -- no other usage passes the check
  cases u with
  | newUser uri => exact hother ⟨.newUser uri, by rw [← hml, hu], trivial⟩
  | emailChange email => cases hok
  | passwordReset uri => cases hok

theorem unchanged_confirmEmail {data : AppState} {req : HttpRequest} {userId confirmId : String}
    (husage : ∀ l ∈ w₀.db .magicLinks, l.id = confirmId → l.usage = usage)
    (hother : ¬ Meant IsEmailChange usage) :
    Keeps sem (fun w => w.db = w₀.db) (User.confirmEmailAddress data req userId confirmId)
      fun _ => False := by
  refine keeps_bind (unchanged_findLink husage) fun ml hml => ?_
  refine keeps_bind (unchanged_of_touches (ml.validate_touches data userId req false)) fun _ _ => ?_
  refine keeps_bind (keeps_answer fun u hu => hu) fun u hu => ?_
  refine keeps_bind (F := fun _ => False) (keeps_answer fun _ hok => ?_) fun _ hno => hno.elim
  cases u with
  | emailChange email => exact hother ⟨.emailChange email, by rw [← hml, hu], trivial⟩
  | newUser uri => cases hok
  | passwordReset uri => cases hok

end Rejected

/-! ### What is changed with the link -/

/-- A user as it may be stored by a request with a link of this usage. -/
structure LinkUser (w₀ : World) (usage : String) (u : User) : Prop where
  email : (∃ u₀ ∈ w₀.db .users, u₀.id = u.id ∧ u₀.email = u.email) ∨
    tryFrom usage = .ok (.emailChange u.email)
  password : (∃ u₀ ∈ w₀.db .users, u₀.id = u.id ∧ u₀.password = u.password) ∨
    Meant IsPassword usage

def linkTyping (w₀ : World) (link usage : String) : Typing where
  row
    | .users, u => LinkUser w₀ usage u
    | .passkeys, pk => pk ∈ w₀.db .passkeys ∨ Meant IsNewUser usage
    | .magicLinks, l => l.id = link → l.usage = usage
    | _, _ => True
  entry
    | .users, _, .user u => LinkUser w₀ usage u
    | _, _, _ => True

section Typed

variable {w₀ : World} {link usage : String} {data : AppState} {req : HttpRequest}
  {userId : String}

theorem linkTyping_users : (linkTyping w₀ link usage).ForUsers where
  copy _ _ := Iff.rfl
  stamp u r hu hid := by
    refine ⟨?_, ?_⟩
    · show (∃ u₀ ∈ w₀.db .users, u₀.id = r.id ∧ u₀.email = u.email) ∨ _
      rw [hid]
      exact hu.email
    · show (∃ u₀ ∈ w₀.db .users, u₀.id = r.id ∧ u₀.password = u.password) ∨ _
      rw [hid]
      exact hu.password
  session _ := trivial
  refreshToken _ := trivial
  cachedSession _ _ := trivial
  cached12hr _ _ := trivial

theorem linkTyping_holds (hcurrent : UsersCurrent w₀)
    (husage : ∀ l ∈ w₀.db .magicLinks, l.id = link → l.usage = usage) :
    (linkTyping w₀ link usage).Holds w₀ where
  rows t r hr := by
    cases t with
    | users => exact ⟨.inl ⟨r, hr, rfl, rfl⟩, .inl ⟨r, hr, rfl, rfl⟩⟩
    | passkeys => exact .inl hr
    | magicLinks => exact husage r hr
    | _ => trivial
  entries c k v hv := by
    cases c with
    | users =>
        cases v with
        | user u =>
            have hu := hcurrent k u hv
            exact ⟨.inl ⟨u, hu, rfl, rfl⟩, .inl ⟨u, hu, rfl, rfl⟩⟩
        | _ => trivial
    | _ => cases v <;> trivial

/-- A part that writes neither users nor passkeys nor links. -/
theorem linkTyped_of_touches {α : Type} {p : M ErrorResponse α} {ts : List Table}
    {cs : List (CacheName × Slot)} (hp : Touches ts cs p)
    (hts : ∀ t ∈ ts, t ≠ .users ∧ t ≠ .passkeys ∧ t ≠ .magicLinks)
    (hcs : (CacheName.users, Slot.user) ∉ cs) :
    Keeps sem (linkTyping w₀ link usage).Holds p fun _ => True := by
  refine typed_of_touches hp (fun t ht r => ?_) fun c k v hv => ?_
  · obtain ⟨h₁, h₂, h₃⟩ := hts t ht
    cases t <;> trivial
  · cases c <;> cases v <;> trivial

theorem linkTyped_of_pure {α : Type} {p : M ErrorResponse α} (hp : Touches [] [] p) :
    Keeps sem (linkTyping w₀ link usage).Holds p fun _ => True :=
  linkTyped_of_touches hp (by simp) (by simp)

theorem linkTyped_findLink :
    Keeps sem (linkTyping w₀ link usage).Holds (MagicLink.find link) fun l => l.usage = usage :=
  keeps_mono typed_fetchOne fun _ h => h.1 (beq_iff_eq.mp h.2)

theorem linkTyped_validate (l : MagicLink) (userId : String) (withCsrf : Bool) :
    Keeps sem (linkTyping w₀ link usage).Holds (l.validate data userId req withCsrf)
      fun _ => True := linkTyped_of_pure (l.validate_touches data userId req withCsrf)

theorem linkTyped_saveLink (l : MagicLink) :
    Keeps sem (linkTyping w₀ link usage).Holds l.save fun _ => True := by
  refine typed_execute ?_
  rw [List.forall_mem_singleton]
  exact fun r hr _ => hr

theorem linkTyped_invalidate (l : MagicLink) :
    Keeps sem (linkTyping w₀ link usage).Holds l.invalidate fun _ => True :=
  keeps_bind (linkTyped_of_pure touches_unixTimestamp) fun _ _ =>
    linkTyped_saveLink _

theorem linkTyped_endSessions (userId : String) :
    Keeps sem (linkTyping w₀ link usage).Holds (Session.invalidateForUser userId) fun _ => True :=
  linkTyped_of_touches (Session.invalidateForUser_touches userId) (by simp) (by simp)

theorem linkTyped_getPwdReset :
    Keeps sem (linkTyping w₀ link usage).Holds (handleGetPwdReset data req userId link)
      fun _ => True := by
  refine keeps_bind linkTyped_findLink fun ml _ => ?_
  refine keeps_bind (linkTyped_validate ml userId false) fun _ _ => ?_
  refine keeps_bind (linkTyping_users.find ml.userId) fun user _ => ?_
  refine keeps_bind (linkTyped_of_touches PasswordPolicy.find_touches (by simp) (by simp))
    fun rules _ => ?_
  refine keeps_bind (linkTyped_of_pure (touches_getRand 48)) fun _ _ => ?_
  refine keeps_bind (linkTyped_saveLink _) fun _ _ => ?_
  exact keeps_bind (linkTyped_of_pure touches_unixTimestamp) fun _ _ => trivial

theorem User.checkMfaCode_touches (user : User) (code : String) :
    Touches [] [] (user.checkMfaCode code) := by
  refine touches_bind (touches_bind (touches_cacheGet _ _ _) fun _ => touches_okOr _ _)
    fun svcReq => ?_
  exact touches_bind (touches_throwIf _ _) fun _ => touches_cacheDel _ _

theorem User.resetMfa_touches (user : User) (code : Option String) :
    Touches [] [] (user.resetMfa code) := by
  unfold User.resetMfa
  split
  · exact touches_bind (touches_okOr _ _) fun c => user.checkMfaCode_touches c
  · exact touches_ret _

theorem LinkUser.applyPasswordRules {user : User} (hu : LinkUser w₀ usage user)
    (hmeant : Meant IsPassword usage) (plain : String) :
    Keeps sem (linkTyping w₀ link usage).Holds (user.applyPasswordRules data plain)
      (LinkUser w₀ usage) := by
  have hreturns : Returns (LinkUser w₀ usage) (user.applyPasswordRules data plain) := by
    unfold User.applyPasswordRules
    refine returns_bind fun _ => returns_bind fun _ => returns_bind fun _ => ?_
    refine returns_bind fun _ => returns_bind fun _ => ?_
    exact ⟨hu.email, .inr hmeant⟩
  have htouches : Touches [.recentPasswords] [(.c12hr, .policy)]
      (user.applyPasswordRules data plain) := User.applyPasswordRules_touches plain
  exact keeps_mono ((linkTyped_of_touches htouches (by simp) (by simp)).returns hreturns)
    fun _ h => h.2

theorem linkTyped_passwordReset {reqData : PasswordResetRequest} (hmeant : Meant IsPassword usage) :
    Keeps sem (linkTyping w₀ reqData.magicLinkId usage).Holds
      (handlePutUserPasswordReset data req userId reqData) fun _ => True := by
  refine keeps_bind (linkTyping_users.find userId) fun user hu => ?_
  refine keeps_bind (linkTyped_of_pure (user.resetMfa_touches _)) fun _ _ => ?_
  refine keeps_bind linkTyped_findLink fun ml _ => ?_
  refine keeps_bind (linkTyped_validate ml user.id true) fun _ _ => ?_
  refine keeps_bind (LinkUser.applyPasswordRules hu hmeant _) fun user hu => ?_
  refine keeps_bind (linkTyped_invalidate ml) fun _ _ => ?_
  have hverified : LinkUser w₀ usage { user with emailVerified := true } := ⟨hu.email, hu.password⟩
  refine keeps_bind (linkTyping_users.save hverified data none) fun _ _ => ?_
  refine keeps_bind (linkTyped_endSessions user.id) fun _ _ => ?_
  refine keeps_bind (keeps_answer fun u _ => trivial) fun u _ => ?_
  cases u <;> trivial

theorem linkTyped_confirmEmail :
    Keeps sem (linkTyping w₀ link usage).Holds (User.confirmEmailAddress data req userId link)
      fun _ => True := by
  refine keeps_bind linkTyped_findLink fun ml hml => ?_
  refine keeps_bind (linkTyped_validate ml userId false) fun _ _ => ?_
  refine keeps_bind (keeps_answer fun u hu => hu) fun u hu => ?_
  rw [hml] at hu
  refine keeps_bind (F := fun email => tryFrom usage = .ok (.emailChange email))
    (keeps_answer fun email hemail => ?_) fun email hemail => ?_
  · cases u with
    | emailChange e =>
        cases hemail
        exact hu
    | newUser uri => cases hemail
    | passwordReset uri => cases hemail
  refine keeps_bind (linkTyping_users.find userId) fun user huser => ?_
  have hnew : LinkUser w₀ usage { user with email := email, emailVerified := true } :=
    ⟨.inr hemail, huser.password⟩
  refine keeps_bind (linkTyping_users.save hnew data (some user.email)) fun _ _ => ?_
  refine keeps_bind (linkTyped_invalidate ml) fun _ _ => ?_
  exact keeps_bind (linkTyped_endSessions user.id) fun _ _ => trivial

theorem linkTyped_regStart {passkeyName : String} :
    Keeps sem (linkTyping w₀ link usage).Holds (regStart userId passkeyName) fun _ => True := by
  have huid : ∀ user : User, Touches [] [] (passkeyUserIdOf user) := by
    intro user
    unfold passkeyUserIdOf
    split
    · exact touches_ret _
    · exact ⟨trivial, fun _ => trivial⟩
  have hids : ∀ id, Touches [] [(.webauthn, .credIds)] (PasskeyEntity.findCredIdsForUser id) :=
    fun id => touches_cached (touches_bind (touches_select _ _) fun _ => touches_ret _)
      (by simp [CacheVal.slot])
  refine keeps_bind (linkTyping_users.find userId) fun user _ => ?_
  refine keeps_bind (linkTyped_of_pure (huid user)) fun uid _ => ?_
  refine keeps_bind (linkTyped_of_touches (hids user.id) (by simp) (by simp)) fun ids _ => ?_
  refine keeps_bind (linkTyped_of_pure ⟨trivial, fun _ => trivial⟩) fun r _ => ?_
  rcases r with e | st
  · exact keeps_fail
  · exact keeps_bind (typed_cachePut trivial) fun _ _ => trivial

theorem linkTyped_passkeyStart {reqData : WebauthnRegStartRequest} :
    Keeps sem (linkTyping w₀ reqData.magicLinkId usage).Holds
      (handlePutUserPasskeyStart data req userId reqData) fun _ => True := by
  refine keeps_bind (linkTyping_users.find userId) fun user _ => ?_
  refine keeps_bind keeps_throwIf fun _ _ => ?_
  refine keeps_bind linkTyped_findLink fun ml _ => ?_
  refine keeps_bind (linkTyped_validate ml user.id true) fun _ _ => ?_
  refine keeps_bind (F := fun _ => True) (keeps_answer fun u _ => trivial) fun u _ => ?_
  exact keeps_bind (F := fun _ => True) (keeps_answer fun _ _ => trivial) fun _ _ =>
    linkTyped_regStart

/-- The registration of a passkey, with the link of a new user. -/
theorem linkTyped_regFinish {id passkeyName cred : String} (hmeant : Meant IsNewUser usage) :
    Keeps sem (linkTyping w₀ link usage).Holds (regFinish data id passkeyName cred)
      fun _ => True := by
  refine keeps_bind (linkTyping_users.find id) fun user hu => ?_
  refine keeps_bind typed_cacheGet fun res _ => ?_
  refine keeps_bind (F := fun _ => True) (keeps_okOr fun _ _ => trivial) fun reg _ => ?_
  refine keeps_bind typed_cacheDel fun _ _ => ?_
  refine keeps_bind (linkTyped_of_pure ⟨trivial, fun _ => trivial⟩) fun r _ => ?_
  rcases r with msg | ⟨pk, userVerified⟩
  · exact keeps_fail
  refine keeps_bind keeps_throwIf fun _ _ => ?_
  refine keeps_bind (typed_execute (by simp)) fun _ _ => ?_
  refine keeps_bind (F := fun ss => ∀ s ∈ ss, s.Typed (linkTyping w₀ link usage)) ?_ fun ss hss => ?_
  · unfold linkPasskey
    split
    · exact fun s hs => by cases hs
    · have hlinked : LinkUser w₀ usage (user.withPasskey data reg.passkeyUserId) :=
        ⟨hu.email, hu.password⟩
      refine keeps_bind (linkTyping_users.saveTxn hlinked) fun s hs => ?_
      exact keeps_ret (List.forall_mem_singleton.mpr hs)
  refine keeps_bind (F := fun s => s.Typed (linkTyping w₀ link usage)) ?_ fun s hs => ?_
  · refine keeps_bind (linkTyped_of_pure touches_unixTimestamp) fun now _ => ?_
    refine keeps_bind (typed_execute (by simp)) fun _ _ => ?_
    exact keeps_bind typed_cacheDel fun _ _ => keeps_bind typed_cacheDel fun _ _ => .inr hmeant
  · refine typed_execute fun s' hs' => ?_
    rcases List.mem_append.mp hs' with hs' | hs'
    · exact hss s' hs'
    · rw [List.mem_singleton.mp hs']
      exact hs

theorem linkTyped_passkeyFinish {reqData : WebauthnRegFinishRequest}
    (hmeant : Meant IsNewUser usage) :
    Keeps sem (linkTyping w₀ reqData.magicLinkId usage).Holds
      (handlePutUserPasskeyFinish data req userId reqData) fun _ => True := by
  refine keeps_bind linkTyped_findLink fun ml _ => ?_
  refine keeps_bind (linkTyped_validate ml userId true) fun _ _ => ?_
  refine keeps_bind (linkTyped_regFinish hmeant) fun _ _ => ?_
  refine keeps_bind (F := fun _ => True) (keeps_answer fun _ _ => trivial) fun _ _ => ?_
  refine keeps_bind (linkTyped_invalidate ml) fun _ _ => ?_
  refine keeps_bind (linkTyping_users.find userId) fun user hu => ?_
  have hverified : LinkUser w₀ usage { user with emailVerified := true } := ⟨hu.email, hu.password⟩
  exact linkTyping_users.save hverified data none

end Typed

/-! ### Which handlers check the usage -/

/-- The link of alice and a registration that she has started. -/
def linkWorld (usage : String) : World where
  clock := 0
  issued := []
  db
    | .users => [sampleUser]
    | .magicLinks =>
        [{ id := "link", userId := "alice", csrfToken := "csrf", cookie := none, exp := 60,
           used := false, usage }]
    | .passwordPolicy => [{ (default : PasswordPolicy) with lengthMin := 1, lengthMax := 64 }]
    | _ => []
  cache
    | .webauthn, "reg_\"key\"_alice" =>
        some (.webauthnReg { userId := "alice", passkeyUserId := "uuid", regState := default })
    | _, _ => none

def linkReq : HttpRequest := { (default : HttpRequest) with pwdCsrfToken := some "csrf" }

/-- A request that changes something, whatever the link is for. -/
theorem exists_changed (usage : String) (handler : LinkHandler)
    (hstart : handler ≠ .passkeyStart) (hconfirm : handler ≠ .confirmEmail) :
    ∃ q r w', LinkRequest.handler q = handler ∧ q.link = "link" ∧
      Exec sem (q.prog sampleState linkReq) (linkWorld usage) r w' ∧
      w'.db ≠ (linkWorld usage).db := by
  cases handler with
  | passkeyStart => exact absurd rfl hstart
  | confirmEmail => exact absurd rfl hconfirm
  | getPwdReset =>
      -- the link is bound to a cookie
      let q : LinkRequest := .getPwdReset "alice" "link"
      obtain ⟨r, w', hx, hw⟩ := Pool.exists_exec_of_choices Op.run (q.prog sampleState linkReq)
        [.ok, .time 0, .miss, .ok, .ok, .miss, .ok, .ok,
          .rand "cookiecookiecookiecookiecookiecookiecookiecookie", .fail default true]
        (linkWorld usage) (fun _ w' => (w'.db .magicLinks).any (·.cookie.isSome)) rfl
      refine ⟨q, r, w', rfl, rfl, hx, fun he => ?_⟩
      rw [he] at hw
      cases hw
  | passkeyFinish =>
      let q : LinkRequest := .passkeyFinish "alice" ⟨"key", "credential", "link"⟩
      obtain ⟨r, w', hx, hw⟩ := Pool.exists_exec_of_choices Op.run (q.prog sampleState linkReq)
        [.ok, .time 0, .miss, .ok, .ok, .ok, .ok, .registered default true, .ok, .ok, .ok, .ok,
          .time 0, .ok, .ok, .ok, .fail default true]
        (linkWorld usage) (fun _ w' => !(w'.db .passkeys).isEmpty) rfl
      refine ⟨q, r, w', rfl, rfl, hx, fun he => ?_⟩
      rw [he] at hw
      cases hw
  | passwordReset =>
      let q : LinkRequest := .passwordReset "alice" ⟨"link", "p", none⟩
      obtain ⟨r, w', hx, hw⟩ := Pool.exists_exec_of_choices Op.run (q.prog sampleState linkReq)
        [.miss, .ok, .ok, .ok, .time 0, .miss, .ok, .ok, .rand "hash", .time 0, .fail default true]
        (linkWorld usage) (fun _ w' => (w'.db .magicLinks).any (·.exp != 60)) rfl
      refine ⟨q, r, w', rfl, rfl, hx, fun he => ?_⟩
      rw [he] at hw
      cases hw

/-- **The usage of a link.**  From every state in which the cached users are current, every request
to a handler with a link of the usage does what the usage allows: if and only if the handler is
there for that usage, or it is one of the two that check it. -/
theorem usage_checked_iff (handler : LinkHandler) (usage : String) :
    (∀ (data : AppState) (req : HttpRequest) (q : LinkRequest) (w : World)
        (r : Except (Fault ErrorResponse) Unit) (w' : World), q.handler = handler →
      (∀ l ∈ w.db .magicLinks, l.id = q.link → l.usage = usage) → UsersCurrent w →
      Exec sem (q.prog data req) w r w' → LinkRespected handler usage r w w') ↔
      Meant handler.Serves usage ∨ handler = .passkeyStart ∨ handler = .confirmEmail := by
  constructor
  · intro h
    by_contra hno
    push Not at hno
    obtain ⟨hmeant, hstart, hconfirm⟩ := hno
    obtain ⟨q, r, w', hq, hlink, hx, hne⟩ := exists_changed usage handler hstart hconfirm
    refine hne ((h sampleState linkReq q _ r w' hq (fun l hl _ => ?_) (fun k u hu => ?_) hx).rejected
      hmeant).2
    · rw [List.mem_singleton.mp hl]
    · cases hu
  · intro h data req q w r w' hq husage hcurrent hx
    -- what each handler keeps to
    have hkeeps : Keeps sem (linkTyping w q.link usage).Holds (q.prog data req) fun _ => True := by
      cases q with
      | getPwdReset userId resetId => exact keeps_bind linkTyped_getPwdReset fun _ _ => trivial
      | passkeyStart userId reqData => exact keeps_bind linkTyped_passkeyStart fun _ _ => trivial
      | passkeyFinish userId reqData =>
          subst hq
          exact linkTyped_passkeyFinish (h.resolve_right (by simp [LinkRequest.handler]))
      | passwordReset userId reqData =>
          subst hq
          refine keeps_bind (linkTyped_passwordReset (h.resolve_right ?_)) fun _ _ => trivial
          simp [LinkRequest.handler]
      | confirmEmail userId confirmId =>
          exact keeps_bind linkTyped_confirmEmail fun _ _ => trivial
    have hholds := (hkeeps.exec (linkTyping_holds hcurrent husage) hx).1
    refine ⟨fun u hu => (hholds.rows .users u hu).password, hholds.rows .passkeys,
      fun u hu => (hholds.rows .users u hu).email, fun hother => ?_⟩
    -- only the handlers that check the usage are left
    have hrejects : Keeps sem (fun w₁ => w₁.db = w.db) (q.prog data req) fun _ => False := by
      subst hq
      cases q with
      | passkeyStart userId reqData =>
          exact keeps_bind (unchanged_passkeyStart husage hother) fun _ hno => hno.elim
      | confirmEmail userId confirmId =>
          exact keeps_bind (unchanged_confirmEmail husage hother) fun _ hno => hno.elim
      | _ => exact absurd (h.resolve_right (by simp [LinkRequest.handler])) hother
    obtain ⟨hdb, hr⟩ := hrejects.exec rfl hx
    rcases r with e | a
    · exact ⟨⟨e, rfl⟩, hdb⟩
    · exact (hr a rfl).elim

/-- A password is set with a link that was sent to confirm an e-mail address. -/
theorem password_set_by_email_link :
    ¬ ∀ (data : AppState) (req : HttpRequest) (q : LinkRequest) (usage : String) (w : World)
        (r : Except (Fault ErrorResponse) Unit) (w' : World),
      (∀ l ∈ w.db .magicLinks, l.id = q.link → l.usage = usage) → UsersCurrent w →
      Exec sem (q.prog data req) w r w' → LinkRespected q.handler usage r w w' := by
  intro hall
  let usage := (MagicLinkUsage.emailChange "bob@localhost").toStr
  let q : LinkRequest := .passwordReset "alice" ⟨"link", "password", none⟩
  obtain ⟨r, w', hx, hw⟩ := Pool.exists_exec_of_choices Op.run (q.prog sampleState linkReq)
    [.miss, .ok, .ok, .ok, .time 0, .miss, .ok, .ok, .rand "hash", .time 0, .ok, .ok, .ok, .ok,
      .time 0, .ok]
    (linkWorld usage) (fun r w' => r.isOk &&
      (w'.db .users).any (·.password == some "hash")) (by decide +kernel)
  have hrespected := hall sampleState linkReq q usage _ r w' (fun l hl _ => by
    rw [List.mem_singleton.mp hl]) (fun k u hu => by cases hu) hx
  have htry : tryFrom usage = .ok (.emailChange "bob@localhost") := tryFrom_toStr _ trivial
  have hother : ¬ Meant IsPassword usage := by
    rintro ⟨u, hu, hmeant⟩
    rw [htry] at hu
    cases hu
    exact hmeant
  obtain ⟨⟨e, rfl⟩, -⟩ := hrespected.rejected hother
  cases hw

/-! ### What the handlers write -/

section Touches

variable {data : AppState}

theorem MagicLink.save_touches (l : MagicLink) : Touches [.magicLinks] [] l.save :=
  touches_execute (by simp [DbWrite.table])

theorem MagicLink.invalidate_touches (l : MagicLink) : Touches [.magicLinks] [] l.invalidate :=
  touches_bind touches_unixTimestamp fun _ => MagicLink.save_touches _

theorem User.selfPassword_touches (user : User) (upd : UpdateUserSelfRequest) :
    Touches [.magicLinks] [] (user.selfPassword data upd) := by
  unfold User.selfPassword
  split
  · exact touches_ret _
  · split
    · exact touches_bind (user.validatePassword_touches data _) fun _ => touches_ret _
    · exact touches_bind ((user.checkMfaCode_touches _).mono (by simp) (by simp)) fun _ =>
        touches_ret _
    · exact touches_fail _

theorem User.selfEmail_touches (user : User) (email : Option String) :
    Touches [.magicLinks] [] (user.selfEmail data email) := by
  unfold User.selfEmail
  rcases email with - | email
  · exact touches_ret _
  show Touches _ _ (if data.toLowercase email ≠ user.email then _ else _)
  split
  · refine touches_bind (touches_execute (by simp [DbWrite.table])) fun _ => ?_
    exact touches_bind (MagicLink.create_touches _ _ _) fun _ => touches_ret _
  · exact touches_ret _

/-- What an update of a user writes. -/
def updateTables : List Table :=
  [.users, .sessions, .refreshTokens, .recentPasswords, .usersValues, .magicLinks]

def updateSlots : List (CacheName × Slot) :=
  [(.sessions, .session), (.users, .user), (.users, .userValues), (.c12hr, .policy), (.c12hr, .roles),
    (.c12hr, .groups)]

theorem User.update_touches (id : String) (upd : UpdateUserRequest) (user : Option User) :
    Touches updateTables updateSlots (User.update data id upd user) := by
  have hfind : Touches updateTables updateSlots (User.findUnless id user) := by
    cases user with
    | none => exact (User.find_touches id).mono (by simp) (by simp [updateSlots])
    | some u => exact touches_ret _
  refine touches_bind hfind fun old => ?_
  refine touches_bind ((User.updateFields_touches upd).mono (by simp [updateTables])
    (by simp [updateSlots])) fun user => ?_
  refine touches_bind ((user.save_touches data _).mono (by simp [updateTables])
    (by simp [updateSlots])) fun _ => ?_
  refine touches_bind (touches_runIf ((Session.invalidateForUser_touches user.id).mono
    (by simp [updateTables]) (by simp [updateSlots]))) fun _ => ?_
  refine touches_bind ?_ fun _ => touches_ret _
  cases upd.userValues with
  | none => exact touches_ret _
  | some values =>
      exact (UserValues.upsert_touches _ _).mono (by simp [updateTables]) (by simp [updateSlots])

theorem User.updateSelfReq_touches (id : String) (upd : UpdateUserSelfRequest) :
    Touches updateTables updateSlots (User.updateSelfReq data id upd) := by
  refine touches_bind ((User.find_touches id).mono (by simp) (by simp [updateSlots])) fun user => ?_
  refine touches_bind ((user.selfPassword_touches upd).mono (by simp [updateTables]) (by simp))
    fun password => ?_
  refine touches_bind ((user.selfEmail_touches upd.email).mono (by simp [updateTables]) (by simp))
    fun _ => ?_
  exact touches_bind (User.update_touches _ _ _) fun _ => touches_ret _

theorem handlePutUserPasswordReset_touches (req : HttpRequest) (userId : String)
    (reqData : PasswordResetRequest) :
    Touches updateTables updateSlots (handlePutUserPasswordReset data req userId reqData) := by
  refine touches_bind ((User.find_touches userId).mono (by simp) (by simp [updateSlots]))
    fun user => ?_
  refine touches_bind ((user.resetMfa_touches _).mono (by simp) (by simp)) fun _ => ?_
  refine touches_bind (touches_fetchOne _ _) fun ml => ?_
  refine touches_bind ((ml.validate_touches data _ req true).mono (by simp) (by simp)) fun _ => ?_
  refine touches_bind ((User.applyPasswordRules_touches _).mono (by simp [updateTables])
    (by simp [updateSlots])) fun user => ?_
  refine touches_bind ((ml.invalidate_touches).mono (by simp [updateTables]) (by simp)) fun _ => ?_
  refine touches_bind ((User.save_touches data _ none).mono (by simp [updateTables])
    (by simp [updateSlots])) fun _ => ?_
  refine touches_bind ((Session.invalidateForUser_touches user.id).mono (by simp [updateTables])
    (by simp [updateSlots])) fun _ => ?_
  refine touches_bind (touches_answer _) fun usage => ?_
  cases usage with
  | newUser uri => exact touches_ret _
  | passwordReset uri => exact touches_ret _
  | emailChange e => exact touches_ret _

end Touches

end Rauthy
