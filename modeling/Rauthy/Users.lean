/-
Rauthy/Users.lean

`rauthy-models/src/entity/users.rs`: users live in the table `users` and, twice, in
the cache `users`: under their id and under their e-mail.  `save` updates all columns
of the row and then both entries; every login reads a whole user, changes a field or
two, and saves it.

E-mails and events that the source sends on the way are left out.
-/
import Rauthy.Sessions
import Rauthy.UserData

namespace Rauthy

open Prog

namespace CacheVal

def user? : CacheVal → Option User
  | user v => some v
  | _ => none

@[simp] theorem user?_eq_some {v : CacheVal} {u : User} : v.user? = some u ↔ v = user u := by
  cases v <;> simp [user?]

def count? : CacheVal → Option Int
  | count v => some v
  | _ => none

end CacheVal

/-! ### Refresh tokens -/

namespace RefreshToken

def save (rt : RefreshToken) : M ErrorResponse Unit := execute [.upsert .refreshTokens rt]

def create (id userId : String) (nbf exp : Int) (scope : Option String) (isMfa : Bool) :
    M ErrorResponse RefreshToken := do
  let rt : RefreshToken := { id, userId, nbf, exp, scope, isMfa }
  rt.save
  return rt

def find (id : String) : M ErrorResponse RefreshToken :=
  mapErr (fun _ => ⟨.notFound, "Refresh Token does not exist"⟩)
    (fetchOne .refreshTokens fun r => r.id == id)

/-- `UPDATE refresh_tokens SET exp = now WHERE exp > now` -/
def invalidateAll : M ErrorResponse Unit := do
  let now ← unixTimestamp
  execute [.update .refreshTokens (fun r => decide (r.exp > now)) fun r => { r with exp := now }]

/-- `UPDATE refresh_tokens SET exp = now WHERE exp > now AND user_id = $2` -/
def invalidateForUser (userId : String) : M ErrorResponse Unit := do
  let now ← unixTimestamp
  execute [.update .refreshTokens (fun r => decide (r.exp > now) && r.userId == userId)
    fun r => { r with exp := now }]

def invalidateAllForUser (userId : String) : M ErrorResponse Unit :=
  execute [.delete .refreshTokens fun r => r.userId == userId]

end RefreshToken

structure UpdateUserRequest where
  email : String
  givenName : String
  familyName : String
  language : Option Language
  password : Option String
  roles : List String
  groups : Option (List String)
  enabled : Bool
  emailVerified : Bool
  userExpires : Option Int
  userValues : Option UserValuesRequest
  deriving DecidableEq, Inhabited

structure UpdateUserSelfRequest where
  email : Option String
  givenName : Option String
  familyName : Option String
  language : Option Language
  passwordCurrent : Option String
  mfaCode : Option String
  passwordNew : Option String
  userValues : Option UserValuesRequest
  deriving DecidableEq, Inhabited

/-- `RAUTHY_ADMIN_ROLE`, `ROLE_ADMIN` -/
def roleAdmin : String := "rauthy_admin"

namespace User

/-! ### CRUD -/

/-- The key of a user in the cache: `k` is an id or an e-mail. -/
def cacheIdx (k : String) : String := "users__" ++ k

theorem cacheIdx_inj {a b : String} : cacheIdx a = cacheIdx b ↔ a = b :=
  String.append_right_inj _

def count : M ErrorResponse Int :=
  cached .c12hr "users_count_total" CacheVal.count? .count (do
    let rows ← select .users fun _ => true
    return rows.length)

def countInc : M ErrorResponse Unit := do
  let count ← User.count
  cachePut .c12hr "users_count_total" (.count (count + 1))

def countDec : M ErrorResponse Unit := do
  let count ← User.count
  cachePut .c12hr "users_count_total" (.count (count - 1))

/-- `DELETE FROM users WHERE id = $1`, with the rows that the foreign keys delete along. -/
def deleteStmts (id : String) : List DbWrite :=
  [.delete .users fun r => r.id == id,
   .delete .usersValues fun r => r.id == id,
   .delete .userAttrValues fun r => r.userId == id,
   .delete .recentPasswords fun r => r.userId == id,
   .delete .magicLinks fun r => r.userId == id,
   .delete .sessions fun r => r.userId == some id,
   .delete .passkeys fun r => r.userId == id,
   .delete .refreshTokens fun r => r.userId == id,
   .delete .refreshTokensDevices fun r => r.userId == id,
   .delete .devices fun r => r.userId == some id]

/-- `User::delete` -/
def delete (u : User) : M ErrorResponse Unit := do
  Session.deleteByUser u.id
  execute (deleteStmts u.id)
  cacheDel .users (cacheIdx u.id)
  cacheDel .users (cacheIdx u.email)
  countDec

def find (id : String) : M ErrorResponse User :=
  cached .users (cacheIdx id) CacheVal.user? .user (fetchOne .users fun u => u.id == id)

def findByEmail (data : AppState) (email : String) : M ErrorResponse User :=
  let email := data.toLowercase email
  cached .users (cacheIdx email) CacheVal.user? .user (fetchOne .users fun u => u.email == email)

def findByFederation (authProviderId federationUid : String) : M ErrorResponse User :=
  fetchOne .users fun u =>
    u.authProviderId == some authProviderId && u.federationUid == some federationUid

def insert (newUser : User) : M ErrorResponse User := do
  -- the other columns are null in a new row
  execute [.insert .users { newUser with
    password := none, passwordExpires := none, lastFailedLogin := none,
    failedLoginAttempts := none, webauthnUserId := none }]
  countInc
  return newUser

/-- `User::create`: the new user gets a link to set its first password. -/
def create (data : AppState) (newUser : User) (postResetRedirectUri : Option String) :
    M ErrorResponse User := do
  let slf ← insert newUser
  let _ ← MagicLink.create slf.id data.mlLtPwdFirst (.newUser postResetRedirectUri)
  return slf

def createFederated (newUser : User) : M ErrorResponse User := insert newUser

def isEmailFree (data : AppState) (email : String) : M ErrorResponse Unit := do
  match ← attempt (findByEmail data email) with
  | .ok _ => fail (err .badRequest "E-Mail is already in use")
  | .error _ => return ()

/-- The statement of `save`: all columns but the id and the time of creation. -/
def saveStmt (u : User) : DbWrite :=
  .update .users (fun r => r.id == u.id) fun r => { u with id := r.id, createdAt := r.createdAt }

/-- `save` after the statement: `oldEmail` is there if the e-mail has changed. -/
def saveCached (u : User) (oldEmail : Option String) : M ErrorResponse Unit := do
  runIf (u.enabled = false) (do
    Session.invalidateForUser u.id
    RefreshToken.invalidateForUser u.id)
  forEach (fun email => cacheDel .users (cacheIdx email)) oldEmail.toList
  cachePut .users (cacheIdx u.id) (.user u)
  cachePut .users (cacheIdx u.email) (.user u)

def save (data : AppState) (u : User) (oldEmail : Option String) : M ErrorResponse Unit := do
  runIf (oldEmail.isSome = true) (isEmailFree data u.email)
  execute [u.saveStmt]
  u.saveCached oldEmail

/-- `User::update_language`: the row only. -/
def updateLanguage (u : User) : M ErrorResponse Unit :=
  execute [.update .users (fun r => r.id == u.id) fun r => { r with language := u.language }]

/-! ### Methods -/

def hasWebauthnEnabled (u : User) : Bool := u.webauthnUserId.isSome

def accountType (u : User) : AccountType :=
  if u.federationUid.isSome && u.password.isSome then .federatedPassword
  else if u.federationUid.isSome && u.hasWebauthnEnabled then .federatedPasskey
  else if u.federationUid.isSome then .federated
  else if u.password.isSome then .password
  else if u.hasWebauthnEnabled then .passkey
  else .new

def getRoles (u : User) : List String :=
  if u.roles = "" then [] else (Text.split ',' u.roles).map Text.trim

def getGroups (u : User) : List String :=
  match u.groups with
  | none => []
  | some gs => (Text.split ',' gs).map Text.trim

def isAdmin (u : User) : Bool := roleAdmin ∈ u.getRoles

def checkEnabled (u : User) : M ErrorResponse Unit :=
  throwIf (u.enabled = false) (err .disabled "User is not enabled")

def checkExpired (u : User) : M ErrorResponse Unit :=
  match u.userExpires with
  | none => return ()
  | some ts => do
      let now ← unixTimestamp
      throwIf (now > ts) (err .disabled "User has expired")

def matchPasswords (data : AppState) (u : User) (plain : String) : M ErrorResponse Bool :=
  match u.password with
  | none => fail (err .badRequest "The password to validate is not set yet")
  | some hash => answer (data.comparePasswords plain hash)

def comparePassword (data : AppState) (u : User) (plain : String) : M ErrorResponse Unit := do
  let ok ← matchPasswords data u plain
  throwIf (ok = false) (err .unauthorized "Invalid user credentials")

def validatePassword (data : AppState) (u : User) (plain : String) : M ErrorResponse Unit := do
  throwIf (u.password.isNone = true) (err .passwordExpired "No password set")
  match u.passwordExpires with
  | none => comparePassword data u plain
  | some exp =>
      let now ← unixTimestamp
      if exp < now then
        throwIf (u.enabled = false) (err .passwordExpired "The password has expired")
        comparePassword data u plain
        -- the right password after it has expired: a reset link is sent out
        let _ ← MagicLink.create u.id data.mlLtPwdReset (.passwordReset none)
        fail (err .passwordRefresh "The password has expired. A reset E-Mail has been sent out.")
      else comparePassword data u plain

def isArgon2Uptodate (data : AppState) (u : User) : M ErrorResponse Bool :=
  match u.password with
  | none => fail (err .internal "Cannot validate argon2 param - password is not set")
  | some hash => return data.argon2Uptodate hash

/-- The classes of characters that a policy counts. -/
structure CharCounts where
  lower : Int
  upper : Int
  digit : Int
  special : Int
  deriving DecidableEq, Inhabited

def CharCounts.add (data : AppState) (n : CharCounts) (c : Char) : CharCounts :=
  if data.isLowercase c then { n with lower := n.lower + 1 }
  else if data.isUppercase c then { n with upper := n.upper + 1 }
  else if '0' ≤ c && c ≤ '9' then { n with digit := n.digit + 1 }
  else if !data.isAlphanumeric c then { n with special := n.special + 1 }
  else n

def charCounts (data : AppState) (s : String) : CharCounts :=
  s.toList.foldl (CharCounts.add data) ⟨0, 0, 0, 0⟩

/-- One of the four minimum counts. -/
def checkCount (what : String) (req : Option Int) (n : Int) : Except ErrorResponse Unit :=
  if req.getD 0 > n then
    .error ⟨.badRequest, "New password does not include the minimum " ++ what ++ " count: " ++
      toString (req.getD 0)⟩
  else .ok ()

/-- The checks of a new password against the policy, without the recent ones.  Lengths
are cast to `usize`: a negative bound is a huge one. -/
def checkPolicy (data : AppState) (rules : PasswordPolicy) (plain : String) :
    Except ErrorResponse Unit := do
  if (Text.len plain : Int) < rules.lengthMin % 2 ^ 64 then
    .error ⟨.badRequest, "Minimum password length is " ++ toString rules.lengthMin⟩
  if (Text.len plain : Int) > rules.lengthMax % 2 ^ 64 then
    .error ⟨.badRequest, "Maximum password length is " ++ toString rules.lengthMax⟩
  let n := charCounts data plain
  checkCount "lower character" rules.includeLowerCase n.lower
  checkCount "upper character" rules.includeUpperCase n.upper
  checkCount "digit" rules.includeDigits n.digit
  checkCount "special character" rules.includeSpecial n.special

/-- The loop over the recent hashes: an error if one matches, else those to keep. -/
def checkRecent (data : AppState) (plain : String) (recentReq : Int) :
    Int → List String → Except ErrorResponse (List String)
  | _, [] => .ok []
  | iteration, oldHash :: rest => do
      if ← data.comparePasswords plain oldHash then
        .error ⟨.badRequest, "The new password must not be one of the last " ++
          toString recentReq ++ " used passwords"⟩
      if iteration + 1 = recentReq then .ok [oldHash]
      else
        let kept ← checkRecent data plain recentReq (iteration + 1) rest
        .ok (oldHash :: kept)

def updateRecent (data : AppState) (u : User) (plain newHash : String) (recentReq : Int) :
    M ErrorResponse Unit := do
  match ← attempt (RecentPasswordsEntity.find u.id) with
  | .ok mostRecent =>
      let kept ← answer (checkRecent data plain recentReq 1 (Text.split '\n' mostRecent.passwords))
      RecentPasswordsEntity.save { mostRecent with
        passwords := newHash ++ "\n" ++ Text.join "\n" kept }
  | .error _ => RecentPasswordsEntity.create u.id newHash

/-- When a new password expires. -/
def newPasswordExpires (data : AppState) (u : User) (rules : PasswordPolicy) :
    M ErrorResponse (Option Int) :=
  if data.webauthnNoPasswordExpiry && u.hasWebauthnEnabled then return none
  else
    match rules.validDays with
    | none => return none
    | some d => do
        let now ← unixTimestamp
        return some (now + d * 86400)

/-- `User::apply_password_rules`: the user with the new password. -/
def applyPasswordRules (data : AppState) (u : User) (plain : String) : M ErrorResponse User := do
  let rules ← PasswordPolicy.find
  answer (checkPolicy data rules plain)
  let newHash ← call (.hashPassword plain) answer
  forEach (updateRecent data u plain newHash) rules.notRecentlyUsed.toList
  let passwordExpires ← newPasswordExpires data u rules
  return { u with password := some newHash, passwordExpires }

/-! ### Updates -/

/-- `User::provider_unlink` -/
def providerUnlink (data : AppState) (userId : String) : M ErrorResponse User := do
  let slf ← User.find userId
  throwIf (slf.password = none ∧ slf.hasWebauthnEnabled = false) (err .badRequest
    "You must have at least a password or passkey set up before you can remove a provider link")
  let slf : User := { slf with authProviderId := none, federationUid := none }
  slf.save data none
  return slf

/-- The new password of an update, if there is one. -/
def updatePassword (data : AppState) (user : User) : Option String → M ErrorResponse User
  | some password => applyPasswordRules data user password
  | none => return user

/-- The part of `update` that fills in the request, up to `save`. -/
def updateFields (data : AppState) (user : User) (upd : UpdateUserRequest) :
    M ErrorResponse User := do
  let user := { user with
    email := data.toLowercase upd.email, givenName := upd.givenName, familyName := upd.familyName,
    language := upd.language.getD user.language }
  let user ← updatePassword data user upd.password
  let roles ← Role.sanitize upd.roles
  let groups ← Group.sanitize upd.groups
  return { user with
    roles, groups, enabled := upd.enabled, emailVerified := upd.emailVerified,
    userExpires := upd.userExpires }

/-- The user to update: the one that the caller has, or the one with the id. -/
def findUnless (id : String) : Option User → M ErrorResponse User
  | none => User.find id
  | some user => return user

/-- The values of an update, if there are some. -/
def updateValues (id : String) : Option UserValuesRequest → M ErrorResponse (Option UserValues)
  | some values => UserValues.upsert id values
  | none => return none

/-- `User::update`: the user, its values, and whether it has just become an admin. -/
def update (data : AppState) (id : String) (upd : UpdateUserRequest) (user : Option User) :
    M ErrorResponse (User × Option UserValues × Bool) := do
  let old ← findUnless id user
  let user ← updateFields data old upd
  let oldEmail := if old.email ≠ user.email then some old.email else none
  save data user oldEmail
  -- the sessions with the old address are gone
  runIf (oldEmail.isSome = true) (Session.invalidateForUser user.id)
  let isNewAdmin := !old.isAdmin && user.isAdmin
  let userValues ← updateValues user.id upd.userValues
  return (user, userValues, isNewAdmin)

end User

/-! ### What they write -/

section Touches

theorem RefreshToken.invalidateForUser_touches (uid : String) :
    Touches [.refreshTokens] [] (RefreshToken.invalidateForUser uid) :=
  touches_bind touches_unixTimestamp fun _ => touches_execute (by simp [DbWrite.table])

namespace User

theorem find_touches (id : String) : Touches [] [(.users, .user)] (User.find id) :=
  touches_cached (touches_fetchOne _ _) (by simp [CacheVal.slot])

theorem findByEmail_touches (data : AppState) (email : String) :
    Touches [] [(.users, .user)] (User.findByEmail data email) :=
  touches_cached (touches_fetchOne _ _) (by simp [CacheVal.slot])

theorem isEmailFree_touches (data : AppState) (email : String) :
    Touches [] [(.users, .user)] (User.isEmailFree data email) := by
  refine touches_bind (touches_attempt (findByEmail_touches data email)) fun x => ?_
  rcases x with e | u
  · exact touches_ret _
  · exact touches_fail _

theorem saveCached_touches (u : User) (oldEmail : Option String) :
    Touches [.sessions, .refreshTokens] [(.sessions, .session), (.users, .user)]
      (u.saveCached oldEmail) := by
  refine touches_bind (touches_runIf (touches_bind ?_ fun _ => ?_)) fun _ => ?_
  · exact (Session.invalidateForUser_touches u.id).mono (by simp) (by simp)
  · exact (RefreshToken.invalidateForUser_touches u.id).mono (by simp) (by simp)
  · refine touches_bind (within_forEach fun _ _ => touches_cacheDel _ _) fun _ => ?_
    exact touches_bind (touches_cachePut (by simp [CacheVal.slot]) _) fun _ =>
      touches_cachePut (by simp [CacheVal.slot]) _

theorem save_touches (data : AppState) (u : User) (oldEmail : Option String) :
    Touches [.users, .sessions, .refreshTokens] [(.sessions, .session), (.users, .user)]
      (u.save data oldEmail) := by
  refine touches_bind (touches_runIf ((isEmailFree_touches data _).mono (by simp) (by simp)))
    fun _ => ?_
  exact touches_bind (touches_execute (by simp [DbWrite.table, saveStmt])) fun _ =>
    (u.saveCached_touches oldEmail).mono (by simp) (by simp)

/-- An enabled user that keeps its e-mail: nothing is invalidated. -/
theorem save_touches_of_enabled (data : AppState) {u : User} (h : u.enabled = true) :
    Touches [.users] [(.users, .user)] (u.save data none) := by
  refine touches_bind (touches_runIf ((isEmailFree_touches data _).mono (by simp) (by simp)))
    fun _ => touches_bind (touches_execute (by simp [DbWrite.table, saveStmt])) fun _ => ?_
  have hskip : runIf (u.enabled = false) (do
      Session.invalidateForUser u.id
      RefreshToken.invalidateForUser u.id) = (.ret () : M ErrorResponse Unit) := by
    rw [runIf, if_neg (by simp [h])]
  unfold saveCached
  rw [hskip]
  refine touches_bind (touches_ret _) fun _ => touches_bind (touches_ret _) fun _ => ?_
  exact touches_bind (touches_cachePut (by simp [CacheVal.slot]) _) fun _ =>
    touches_cachePut (by simp [CacheVal.slot]) _

theorem checkEnabled_touches (u : User) : Touches [] [] u.checkEnabled := touches_throwIf _ _

theorem checkExpired_touches (u : User) : Touches [] [] u.checkExpired := by
  unfold checkExpired
  split
  · exact touches_ret _
  · exact touches_bind touches_unixTimestamp fun _ => touches_throwIf _ _

theorem newPasswordExpires_touches (data : AppState) (u : User) (rules : PasswordPolicy) :
    Touches [] [] (u.newPasswordExpires data rules) := by
  unfold newPasswordExpires
  split
  · exact touches_ret _
  · split
    · exact touches_ret _
    · exact touches_bind touches_unixTimestamp fun _ => touches_ret _

theorem comparePassword_touches (data : AppState) (u : User) (plain : String) :
    Touches [] [] (u.comparePassword data plain) := by
  refine touches_bind ?_ fun _ => touches_throwIf _ _
  unfold matchPasswords
  split
  · exact touches_fail _
  · exact touches_answer _

theorem validatePassword_touches (data : AppState) (u : User) (plain : String) :
    Touches [.magicLinks] [] (u.validatePassword data plain) := by
  have hcmp := (u.comparePassword_touches data plain).mono (List.nil_subset [.magicLinks])
    (List.nil_subset [])
  refine touches_bind (touches_throwIf _ _) fun _ => ?_
  split
  · exact hcmp
  · refine touches_bind touches_unixTimestamp fun now => ?_
    split
    · refine touches_bind (touches_throwIf _ _) fun _ => touches_bind hcmp fun _ => ?_
      exact touches_bind (MagicLink.create_touches _ _ _) fun _ => touches_fail _
    · exact hcmp

end User

end Touches

/-! ### What they have seen -/

open Pool in
/-- A user that is found was cached under its key, or has the id. -/
theorem User.sees_find {G : List (Seen Op Op.Res) → Seen Op Op.Res → Prop}
    {tr : List (Seen Op Op.Res)} {id : String} (hG : Allows G [] [])
    (hput : ∀ tr u x, u.id = id → G tr ⟨.cachePut .users (User.cacheIdx id) (.user u), x⟩) :
    Sees Op.Possible G (User.find id) (fun u tr' =>
      ⟨.cacheGet .users (User.cacheIdx id), .ok (some (.user u))⟩ ∈ tr' ∨
      u.id = id ∧ ∃ p rows, ⟨.select .users p, .ok (u :: rows)⟩ ∈ tr') tr := by
  unfold User.find
  refine sees_mono (sees_cachedRow (t := .users) hG fun tr u x hu _ => ?_) fun u tr' _ h => ?_
  · exact hput tr u x (by simpa using hu)
  rcases h with ⟨v, hv, hu⟩ | ⟨hu, rows, hmem⟩
  · rw [CacheVal.user?_eq_some.mp hu] at hv
    exact .inl hv
  · exact .inr ⟨by simpa using hu, _, rows, hmem⟩

end Rauthy
