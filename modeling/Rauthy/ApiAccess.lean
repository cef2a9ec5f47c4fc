/-
Rauthy/ApiAccess.lean

`ApiKey::validate_access` and the functions of `rauthy-models/src/entity/principal.rs` that ask
it.  The access rights of a key are a list that the admin has sent, in which nothing keeps a
group from standing twice.  The loop over it returns at the first entry of the group in question,
whether or not that entry has the right, so that a later entry never counts.
-/
import Rauthy.ApiKeys
import Rauthy.Principal

namespace Rauthy

open Prog

/-! ### The rights of a key -/

/-- The loop of `ApiKey::validate_access`. -/
def ApiKeyAccess.validate (group : AccessGroup) (right : AccessRights) :
    List ApiKeyAccess → Except ErrorResponse Unit
  | [] => .error ⟨.forbidden, "Access denied"⟩
  | a :: rest =>
      -- the early return: the rest of the list is not looked at
      if a.group = group then
        if right ∈ a.accessRights then .ok () else .error ⟨.forbidden, "Access denied"⟩
      else validate group right rest

def ApiKey.validateAccess (k : ApiKey) (group : AccessGroup) (right : AccessRights) :
    Except ErrorResponse Unit :=
  ApiKeyAccess.validate group right k.access

/-- `Debug`, as the error of the principal prints it -/
def AccessGroup.debug : AccessGroup → String
  | blacklist => "Blacklist"
  | clients => "Clients"
  | events => "Events"
  | generic => "Generic"
  | groups => "Groups"
  | roles => "Roles"
  | secrets => "Secrets"
  | sessions => "Sessions"
  | scopes => "Scopes"
  | userAttributes => "UserAttributes"
  | users => "Users"

def AccessRights.debug : AccessRights → String
  | read => "Read"
  | create => "Create"
  | update => "Update"
  | delete => "Delete"

/-! ### The principal -/

/-- A principal together with the API key of its request. -/
structure KeyPrincipal extends Principal where
  apiKey : Option ApiKey

/-- The value of an `Authorization` header for an API key: none if it is for something else. -/
def apiKeyValue (header : String) : Except ErrorResponse (Option String) :=
  match Text.splitOnce header " " with
  | none => .error ⟨.badRequest, "Malformed 'Authorization' header"⟩
  | some (k, v) => .ok (if k = "API-Key" then some v else none)

def getApiKeyFromHeaders (data : AppState) (req : HttpRequest) :
    M ErrorResponse (Option ApiKey) :=
  match req.authorization with
  | none => return none
  | some header => do
      match ← answer (apiKeyValue header) with
      | none => return none
      | some token => do
          let key ← ApiKeyEntity.apiKeyFromTokenValidated data token
          return some key

/-- The middleware: a session is read from its cookie as well, if the request has one. -/
def getKeyPrincipal (data : AppState) (req : HttpRequest) : M ErrorResponse KeyPrincipal := do
  let apiKey ← getApiKeyFromHeaders data req
  let principal ← getPrincipal data req
  return { principal with apiKey }

namespace KeyPrincipal

def validateApiKey (p : KeyPrincipal) (group : AccessGroup) (right : AccessRights) :
    Except ErrorResponse Unit :=
  match p.apiKey with
  | none => .error ⟨.unauthorized, "No API Key found"⟩
  | some key =>
      match key.validateAccess group right with
      | .ok _ => .ok ()
      | .error _ =>
          .error ⟨.forbidden, "Bad permissions for given ApiKey. Needed: " ++ group.debug ++ " / " ++
            right.debug⟩

/-- The session is asked only if there is no API key. -/
def validateApiKeyOrAdminSession (data : AppState) (p : KeyPrincipal) (group : AccessGroup)
    (right : AccessRights) : Except ErrorResponse Unit :=
  match p.validateApiKey group right with
  | .ok _ => .ok ()
  | .error e => if e.error = .forbidden then .error e else p.toPrincipal.validateAdminSession data

/-- A request with a key is judged by the rights of this key. -/
theorem validateApiKey_ok {p : KeyPrincipal} {k : ApiKey} (hp : p.apiKey = some k)
    (group : AccessGroup) (right : AccessRights) :
    p.validateApiKey group right = .ok () ↔ k.validateAccess group right = .ok () := by
  rw [validateApiKey, hp]
  cases haccess : k.validateAccess group right <;> simp [haccess]

/-- What the key does not allow is not made up for by a session. -/
theorem validateApiKeyOrAdminSession_ok {p : KeyPrincipal} {k : ApiKey} (hp : p.apiKey = some k)
    (data : AppState) (group : AccessGroup) (right : AccessRights) :
    p.validateApiKeyOrAdminSession data group right = .ok () ↔
      k.validateAccess group right = .ok () := by
  rw [validateApiKeyOrAdminSession, validateApiKey, hp]
  cases haccess : k.validateAccess group right <;> simp [haccess]

end KeyPrincipal

/-! ### The first entry of a group decides -/

/-- Some entry of the group has the right. -/
def ApiKey.Lists (k : ApiKey) (group : AccessGroup) (right : AccessRights) : Prop :=
  ∃ a ∈ k.access, a.group = group ∧ right ∈ a.accessRights

/-- The key is asked for what its list says, and a request with this key is granted the same. -/
structure ApiKey.AsListed (data : AppState) (k : ApiKey) (group : AccessGroup)
    (right : AccessRights) : Prop where
  access : k.validateAccess group right = .ok () ↔ k.Lists group right
  request : ∀ p : KeyPrincipal, p.apiKey = some k →
    (p.validateApiKey group right = .ok () ↔ k.validateAccess group right = .ok ())
  session : ∀ p : KeyPrincipal, p.apiKey = some k →
    (p.validateApiKeyOrAdminSession data group right = .ok () ↔
      k.validateAccess group right = .ok ())

/-- If the first entry of the group lacks the right, so does every other. -/
def ApiKey.FirstSpeaks (k : ApiKey) (group : AccessGroup) (right : AccessRights) : Prop :=
  ∀ a, k.access.find? (fun a => a.group = group) = some a → right ∉ a.accessRights →
    ∀ b ∈ k.access, b.group = group → right ∉ b.accessRights

theorem ApiKeyAccess.validate_ok {group : AccessGroup} {right : AccessRights} :
    ∀ l : List ApiKeyAccess, validate group right l = .ok () ↔
      ∃ a, l.find? (fun a => a.group = group) = some a ∧ right ∈ a.accessRights
  | [] => by simp [validate]
  | a :: rest => by
      by_cases hgroup : a.group = group
      · have hfind : (a :: rest).find? (fun a => a.group = group) = some a := by simp [hgroup]
        rw [validate, if_pos hgroup, hfind]
        by_cases hright : right ∈ a.accessRights <;> simp [hright]
      · have hfind : (a :: rest).find? (fun a => a.group = group) =
            rest.find? fun a => a.group = group := by simp [hgroup]
        rw [validate, if_neg hgroup, hfind]
        exact validate_ok rest

theorem ApiKey.validateAccess_iff (k : ApiKey) (group : AccessGroup) (right : AccessRights) :
    (k.validateAccess group right = .ok () ↔ k.Lists group right) ↔ k.FirstSpeaks group right := by
  rw [ApiKey.validateAccess, ApiKeyAccess.validate_ok]
  constructor
  · intro h a hfind hright b hb hgroup hlater
    obtain ⟨a', hfind', hright'⟩ := h.mpr ⟨b, hb, hgroup, hlater⟩
    obtain rfl : a = a' := Option.some.inj (hfind.symm.trans hfind')
    exact hright hright'
  · intro h
    constructor
    · rintro ⟨a, hfind, hright⟩
      have hgroup : a.group = group := by simpa using List.find?_some hfind
      exact ⟨a, List.mem_of_find?_eq_some hfind, hgroup, hright⟩
    · rintro ⟨b, hb, hgroup, hright⟩
      -- some entry is the first one, and it has the right as well
      have hsome : (k.access.find? fun a => a.group = group).isSome := by
        rw [List.find?_isSome]
        exact ⟨b, hb, by simpa using hgroup⟩
      obtain ⟨a, hfind⟩ := Option.isSome_iff_exists.mp hsome
      by_cases ha : right ∈ a.accessRights
      · exact ⟨a, hfind, ha⟩
      · exact absurd hright (h a hfind ha b hb hgroup)

/-- **A key has the rights it lists** exactly if the first entry of a group speaks for all entries
of this group; a request with the key is always granted what the key is. -/
theorem api_key_as_listed (data : AppState) (k : ApiKey) (group : AccessGroup)
    (right : AccessRights) : k.AsListed data group right ↔ k.FirstSpeaks group right := by
  constructor
  · exact fun h => (k.validateAccess_iff group right).mp h.access
  · intro h
    refine ⟨(k.validateAccess_iff group right).mpr h, fun p hp => ?_, fun p hp => ?_⟩
    · exact p.validateApiKey_ok hp group right
    · exact p.validateApiKeyOrAdminSession_ok hp data group right

/-- A key whose rights for users are listed in two entries. -/
def splitKey : ApiKey where
  name := "sync"
  secret := []
  created := 0
  expires := none
  access := [⟨.users, [.read]⟩, ⟨.users, [.create, .update]⟩]

/-- The second entry lists the right to create users, and the key is denied it. -/
theorem split_key_denied :
    ¬ ∀ (data : AppState) (k : ApiKey) (group : AccessGroup) (right : AccessRights),
      k.AsListed data group right := by
  intro h
  have haccess := (h sampleState splitKey .users .create).access
  have hlists : splitKey.Lists .users .create := ⟨⟨.users, [.create, .update]⟩, by decide⟩
  have hdenied : splitKey.validateAccess .users .create ≠ .ok () := by
    rw [ApiKey.validateAccess]
    decide
  exact hdenied (haccess.mpr hlists)

end Rauthy
