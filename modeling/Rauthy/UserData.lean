/-
Rauthy/UserData.lean

The entities around a user: `users_values.rs`, `user_attr.rs`, `password.rs`,
`roles.rs`, `groups.rs`, `scopes.rs` and `magic_links.rs` of
`rauthy-models/src/entity`, as far as logins and updates of users need them.
-/
import Rauthy.AppState
import Rauthy.Monad

namespace Rauthy

open Prog

namespace CacheVal

variable {v : CacheVal}

def userValues? : CacheVal → Option (Option UserValues)
  | userValues v => some v
  | _ => none

@[simp] theorem userValues?_eq_some {a : Option UserValues} :
    v.userValues? = some a ↔ v = userValues a := by
  cases v <;> simp [userValues?]

def userAttrValues? : CacheVal → Option (List UserAttrValueEntity)
  | userAttrValues v => some v
  | _ => none

def policy? : CacheVal → Option PasswordPolicy
  | policy v => some v
  | _ => none

@[simp] theorem policy?_eq_some {rules : PasswordPolicy} :
    v.policy? = some rules ↔ v = policy rules := by
  cases v <;> simp [policy?]

def roles? : CacheVal → Option (List Role)
  | roles v => some v
  | _ => none

@[simp] theorem roles?_eq_some {a : List Role} :
    v.roles? = some a ↔ v = roles a := by
  cases v <;> simp [roles?]

def groups? : CacheVal → Option (List Group)
  | groups v => some v
  | _ => none

def scopes? : CacheVal → Option (List Scope)
  | scopes v => some v
  | _ => none

end CacheVal

/-! ### Values and attributes -/

structure UserValuesRequest where
  birthdate : Option String
  phone : Option String
  street : Option String
  zip : Option Int
  city : Option String
  country : Option String
  deriving DecidableEq, Inhabited

namespace UserValues

def cacheIdx (userId : String) : String := "users_values__" ++ userId

/-- An error of the cache counts as a miss here. -/
def find (userId : String) : M ErrorResponse (Option UserValues) := do
  match ← attempt (cacheGet .users (cacheIdx userId) CacheVal.userValues?) with
  | .ok (some values) => return values
  | _ =>
      let slf ← fetchOptional .usersValues fun v => v.id == userId
      cachePut .users (cacheIdx userId) (.userValues slf)
      return slf

def upsert (userId : String) (values : UserValuesRequest) :
    M ErrorResponse (Option UserValues) := do
  let slf : UserValues :=
    { id := userId, birthdate := values.birthdate, phone := values.phone, street := values.street,
      zip := values.zip, city := values.city, country := values.country }
  execute [.upsert .usersValues slf]
  cachePut .users (cacheIdx userId) (.userValues (some slf))
  return some slf

end UserValues

namespace UserAttrValueEntity

def cacheIdx (userId : String) : String := "user_attrs_" ++ userId

def findForUser (userId : String) : M ErrorResponse (List UserAttrValueEntity) :=
  cached .users (cacheIdx userId) CacheVal.userAttrValues? .userAttrValues
    (select .userAttrValues fun a => a.userId == userId)

end UserAttrValueEntity

/-! ### Passwords -/

def PasswordPolicy.find : M ErrorResponse PasswordPolicy :=
  cached .c12hr "password_rules_" CacheVal.policy? .policy (fetchOne .passwordPolicy fun _ => true)

namespace RecentPasswordsEntity

def create (userId passwords : String) : M ErrorResponse Unit :=
  execute [.insert .recentPasswords ⟨userId, passwords⟩]

def find (userId : String) : M ErrorResponse RecentPasswordsEntity :=
  fetchOne .recentPasswords fun r => r.userId == userId

def save (r : RecentPasswordsEntity) : M ErrorResponse Unit :=
  execute [.update .recentPasswords (fun r' => r'.userId == r.userId)
    fun r' => { r' with passwords := r.passwords }]

end RecentPasswordsEntity

/-! ### Roles, groups and scopes -/

/-- The names from `wanted` that exist, in the order of the table, each followed by a
comma: what `sanitize` of roles and groups collects. -/
def pushNames (names wanted : List String) : String :=
  (names.filter (· ∈ wanted)).foldl (fun res n => res ++ n ++ ",") ""

/-- `res.remove(res.len() - 1)`: drops the last comma. -/
def removeLast (res : String) : String := String.ofList res.toList.dropLast

def Role.findAll : M ErrorResponse (List Role) :=
  cached .c12hr "roles_" CacheVal.roles? .roles (select .roles fun _ => true)

def Role.sanitize (rls : List String) : M ErrorResponse String := do
  let roles ← Role.findAll
  let res := pushNames (roles.map Role.name) rls
  return if res = "" then res else removeLast res

def Group.findAll : M ErrorResponse (List Group) :=
  cached .c12hr "groups_" CacheVal.groups? .groups (select .groups fun _ => true)

def Group.sanitize (groupsOpt : Option (List String)) : M ErrorResponse (Option String) := do
  match groupsOpt with
  | none => return none
  | some gs =>
      let groups ← Group.findAll
      let res := pushNames (groups.map Group.name) gs
      return if res = "" then none else some (removeLast res)

namespace Scope

def findAll : M ErrorResponse (List Scope) :=
  cached .c12hr "scopes_" CacheVal.scopes? .scopes (select .scopes fun _ => true)

/-- `Scope::is_custom`: `groups` counts as a default scope. -/
def isCustom (scope : String) : Bool :=
  scope != "openid" && scope != "profile" && scope != "email" && scope != "groups"

def extractCustom (scopes : String) : List String := (Text.split ' ' scopes).filter isCustom

end Scope

/-! ### Magic links -/

namespace MagicLinkUsage

/-- `TryFrom<&str>`: the value stands after the first `$`. -/
def tryFrom (value : String) : Except ErrorResponse MagicLinkUsage :=
  let (ty, v) := (Text.splitOnce value "$").getD (value, "")
  if ty = "email_change" then .ok (.emailChange v)
  else if ty = "new_user" then .ok (.newUser (if v = "" then none else some v))
  else if ty = "password_reset" then .ok (.passwordReset (if v = "" then none else some v))
  else .error ⟨.badRequest, "Invalid string for MagicLinkUsage parsing"⟩

/-- `Display` -/
def toStr : MagicLinkUsage → String
  | emailChange email => "email_change$" ++ email
  | newUser (some uri) => "new_user$" ++ uri
  | newUser none => "new_user"
  | passwordReset (some uri) => "password_reset$" ++ uri
  | passwordReset none => "password_reset"

end MagicLinkUsage

namespace MagicLink

def create (userId : String) (lifetimeMinutes : Int) (usage : MagicLinkUsage) :
    M ErrorResponse MagicLink := do
  let id ← getRand 64
  let now ← unixTimestamp
  let csrfToken ← getRand 48
  let link : MagicLink :=
    { id, userId, csrfToken, cookie := none, exp := now + lifetimeMinutes * 60, used := false,
      usage := usage.toStr }
  execute [.insert .magicLinks link]
  return link

def find (id : String) : M ErrorResponse MagicLink := fetchOne .magicLinks fun l => l.id == id

/-- `delete … where user_id = $1 and usage like 'email_change$%'` -/
def invalidateAllEmailChange (userId : String) : M ErrorResponse Unit :=
  execute [.delete .magicLinks fun l => l.userId == userId && Text.startsWith l.usage "email_change$"]

def save (l : MagicLink) : M ErrorResponse Unit :=
  execute [.update .magicLinks (fun r => r.id == l.id)
    fun r => { r with cookie := l.cookie, exp := l.exp, used := l.used }]

def invalidate (l : MagicLink) : M ErrorResponse Unit := do
  let now ← unixTimestamp
  save { l with exp := now - 10 }

/-- The binding of the link to a cookie: an error only if the binding is enforced. -/
def validateCookie (data : AppState) (l : MagicLink) (req : HttpRequest) :
    Except ErrorResponse Unit :=
  match l.cookie with
  | none => .ok ()
  | some bound =>
      let matched := match req.pwdResetCookie with
        | some cookie => Text.endsWith cookie bound
        | none => false
      if !matched && data.passwordResetCookieBinding then
        .error ⟨.forbidden,
          "The requested password reset link is already tied to another session"⟩
      else .ok ()

def validateLinkCsrf (l : MagicLink) (req : HttpRequest) : Except ErrorResponse Unit :=
  match req.pwdCsrfToken with
  | none => .error ⟨.unauthorized, "CSRF Token is missing"⟩
  | some token =>
      if l.csrfToken ≠ token then .error ⟨.unauthorized, "Invalid CSRF Token"⟩ else .ok ()

def validate (data : AppState) (l : MagicLink) (userId : String) (req : HttpRequest)
    (withCsrf : Bool) : M ErrorResponse Unit := do
  answer (validateCookie data l req)
  runIf (withCsrf = true) (answer (validateLinkCsrf l req))
  throwIf (l.userId ≠ userId) (err .badRequest "The user id is invalid")
  let now ← unixTimestamp
  throwIf (l.exp < now) (err .badRequest "This link has expired already")
  throwIf (l.used = true) (err .badRequest "The requested passwort reset link was already used")

end MagicLink

/-! ### What they write -/

section Touches

theorem UserValues.find_touches (id : String) :
    Touches [] [(.users, .userValues)] (UserValues.find id) := by
  refine touches_bind (touches_attempt (touches_cacheGet _ _ _)) fun x => ?_
  rcases x with e | - | v
  · exact touches_bind (touches_fetchOptional _ _) fun _ =>
      touches_bind (touches_cachePut (by simp [CacheVal.slot]) _) fun _ => touches_ret _
  · exact touches_bind (touches_fetchOptional _ _) fun _ =>
      touches_bind (touches_cachePut (by simp [CacheVal.slot]) _) fun _ => touches_ret _
  · exact touches_ret _

/-- The values are optional, and a failing cache is not reported. -/
theorem answered_findValues {w : World} (id : String) :
    Outcomes semUp (UserValues.find id) w fun r _ => ∃ v, r = .ok v := by
  have hload : ∀ w₁, Outcomes semUp (do
      let slf ← fetchOptional .usersValues fun v => v.id == id
      cachePut .users (UserValues.cacheIdx id) (.userValues slf)
      return slf) w₁ fun r _ => ∃ v, r = .ok v := by
    intro w₁
    refine outcomes_bind (outcomes_bind (answered_select (outcomes_ret ?_)))
    exact outcomes_bind (answered_cachePut (outcomes_ret ⟨_, rfl⟩))
  -- whatever the cache answers
  refine outcomes_bind (outcomes_tried (outcomes_bind (outcomes_call fun x w₁ _ => ?_)))
  rcases x with e | - | v
  · exact outcomes_fail (hload w₁)
  · exact outcomes_ret (outcomes_ret (hload w₁))
  · refine outcomes_ret (outcomes_bind (outcomes_okOr (fun values _ => ?_) fun _ => hload w₁))
    exact outcomes_ret (outcomes_ret ⟨values, rfl⟩)

theorem UserValues.find_noDel (id : String) : NoDel (UserValues.find id) := by
  refine noDel_bind (noDel_attempt (noDel_cacheGet _ _ _)) fun x => ?_
  rcases x with e | - | v
  · exact noDel_bind (noDel_fetchOptional _ _) fun _ =>
      noDel_bind (noDel_cachePut _ _ _) fun _ => noDel_ret _
  · exact noDel_bind (noDel_fetchOptional _ _) fun _ =>
      noDel_bind (noDel_cachePut _ _ _) fun _ => noDel_ret _
  · exact noDel_ret _

theorem UserValues.upsert_touches (id : String) (v : UserValuesRequest) :
    Touches [.usersValues] [(.users, .userValues)] (UserValues.upsert id v) :=
  touches_bind (touches_execute (by simp [DbWrite.table])) fun _ =>
    touches_bind (touches_cachePut (by simp [CacheVal.slot]) _) fun _ => touches_ret _

theorem UserAttrValueEntity.findForUser_touches (id : String) :
    Touches [] [(.users, .userAttrValues)] (UserAttrValueEntity.findForUser id) :=
  touches_cached (touches_select _ _) (by simp [CacheVal.slot])

theorem UserAttrValueEntity.findForUser_noDel (id : String) :
    NoDel (UserAttrValueEntity.findForUser id) := noDel_cached (noDel_select _ _)

theorem PasswordPolicy.find_touches : Touches [] [(.c12hr, .policy)] PasswordPolicy.find :=
  touches_cached (touches_fetchOne _ _) (by simp [CacheVal.slot])

theorem Role.sanitize_touches (rls : List String) :
    Touches [] [(.c12hr, .roles)] (Role.sanitize rls) :=
  touches_bind (touches_cached (touches_select _ _) (by simp [CacheVal.slot])) fun _ =>
    touches_ret _

theorem Group.sanitize_touches (gs : Option (List String)) :
    Touches [] [(.c12hr, .groups)] (Group.sanitize gs) := by
  rcases gs with - | gs
  · exact touches_ret _
  · exact touches_bind (touches_cached (touches_select _ _) (by simp [CacheVal.slot])) fun _ =>
      touches_ret _

theorem Scope.findAll_touches : Touches [] [(.c12hr, .scopes)] Scope.findAll :=
  touches_cached (touches_select _ _) (by simp [CacheVal.slot])

theorem Scope.findAll_noDel : NoDel Scope.findAll := noDel_cached (noDel_select _ _)

theorem MagicLink.create_touches (id : String) (n : Int) (u : MagicLinkUsage) :
    Touches [.magicLinks] [] (MagicLink.create id n u) := by
  refine touches_bind (touches_getRand _) fun _ => touches_bind touches_unixTimestamp fun _ => ?_
  refine touches_bind (touches_getRand _) fun _ => ?_
  exact touches_bind (touches_execute (by simp [DbWrite.table])) fun _ => touches_ret _

theorem MagicLink.validate_touches (data : AppState) (l : MagicLink) (id : String)
    (req : HttpRequest) (b : Bool) : Touches [] [] (MagicLink.validate data l id req b) := by
  refine touches_bind (touches_answer _) fun _ => touches_bind (touches_runIf (touches_answer _))
    fun _ => touches_bind (touches_throwIf _ _) fun _ => ?_
  exact touches_bind touches_unixTimestamp fun _ => touches_bind (touches_throwIf _ _) fun _ =>
    touches_throwIf _ _

end Touches

end Rauthy
