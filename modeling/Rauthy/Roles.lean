/-
Rauthy/Roles.lean

`roles.rs`, `groups.rs`, `scopes.rs` and the configuration of attributes in `user_attr.rs`
of `rauthy-models/src/entity`: their tables are small, and each is also kept as one list
in a cache.  A user names its roles and groups, a client its scopes, and a scope its
attributes in a text with commas, so that a change of a name edits these texts.

The edits run in one transaction, but every `save` in it fills the caches at once.
-/
import Rauthy.Clients
import Rauthy.Webauthn

namespace Rauthy

open Prog

namespace CacheVal

def userAttr? : CacheVal → Option UserAttrConfigEntity
  | userAttr v => some v
  | _ => none

def userAttrs? : CacheVal → Option (List UserAttrConfigEntity)
  | userAttrs v => some v
  | _ => none

end CacheVal

/-! ### Tables with one list in the cache -/

/-- A table of named rows, and where the list of its rows is cached. -/
structure Listing (t : Table) where
  key : String
  wrap : List (Row t) → CacheVal
  unwrap : CacheVal → Option (List (Row t))
  id : Row t → String
  name : Row t → String

def roleListing : Listing .roles where
  key := "roles_"
  wrap := .roles
  unwrap := CacheVal.roles?
  id := Role.id
  name := Role.name

def groupListing : Listing .groups where
  key := "groups_"
  wrap := .groups
  unwrap := CacheVal.groups?
  id := Group.id
  name := Group.name

def scopeListing : Listing .scopes where
  key := "scopes_"
  wrap := .scopes
  unwrap := CacheVal.scopes?
  id := Scope.id
  name := Scope.name

namespace Listing

variable {t : Table} (L : Listing t)

/-- `find_all` -/
def findAll : M ErrorResponse (List (Row t)) :=
  cached .c12hr L.key L.unwrap L.wrap (select t fun _ => true)

/-- `find` -/
def find (id : String) : M ErrorResponse (Row t) := fetchOne t fun r => L.id r == id

def store (rows : List (Row t)) : M ErrorResponse Unit := cachePut .c12hr L.key (L.wrap rows)

/-- The end of `create`: the list is the one that was read at its start. -/
def insert (rows : List (Row t)) (row : Row t) : M ErrorResponse Unit := do
  execute [.insert t row]
  L.store (rows ++ [row])

/-- The end of `update` -/
def storeUpdated (id : String) (f : Row t → Row t) : M ErrorResponse Unit := do
  let rows ← L.findAll
  L.store (rows.map fun r => if L.id r = id then f r else r)

/-- The end of `delete` -/
def storeDeleted (id : String) : M ErrorResponse Unit := do
  let rows ← L.findAll
  L.store (rows.filter fun r => L.id r != id)

end Listing

/-! ### Texts with commas -/

/-- What `delete_role`, `delete_group` and `delete_scope` make of a text with commas: the name
goes with the comma behind it if the text starts with the name, else with the comma before it.
`none` stands for the text that was the name. -/
def deleteFromCsv (csv name : String) : Option String :=
  match Text.find csv name with
  | none => some csv
  | some i =>
      if i = 0 then
        if Text.len csv > Text.len name then some (Text.replace csv (name ++ ",") "") else none
      else some (Text.replace csv ("," ++ name) "")

def User.deleteRole (u : User) (role : String) : User :=
  { u with roles := (deleteFromCsv u.roles role).getD "" }

def User.deleteGroup (u : User) (group : String) : User :=
  { u with groups := u.groups.bind (deleteFromCsv · group) }

/-- The default scopes are only looked at if the scope was found in the scopes. -/
def Client.deleteScope (c : Client) (scope : String) : Client :=
  if Text.find c.scopes scope = none then c
  else { c with
    scopes := (deleteFromCsv c.scopes scope).getD ""
    defaultScopes := (deleteFromCsv c.defaultScopes scope).getD "" }

def Client.getScopes (c : Client) : List String := (Text.split ',' c.scopes).map Text.trim

def Client.getDefaultScopes (c : Client) : List String :=
  (Text.split ',' c.defaultScopes).map Text.trim

/-! ### Users and clients that name them -/

/-- `ORDER BY created_at ASC` -/
def User.findAll : M ErrorResponse (List User) := do
  let rows ← select .users fun _ => true
  return rows.insertionSort fun u v => u.createdAt ≤ v.createdAt

/-- The edited users are saved in a transaction with one more statement. -/
def User.saveEdited (users : List User) (last : DbWrite) : M ErrorResponse Unit := do
  runIf (users ≠ []) (cacheDel .c12hr "users_")
  execute []
  let stmts ← User.saveAll users
  execute []
  execute (stmts ++ [last])

/-- The statements of several `Client::save` in one transaction. -/
def Client.saveAll : List Client → M ErrorResponse (List DbWrite)
  | [] => return []
  | c :: cs => do
      let s ← c.saveTxn
      let ss ← Client.saveAll cs
      return s :: ss

/-- The edited clients are saved; the statements are for the commit of the transaction. -/
def Client.saveEdited (clients : List Client) : M ErrorResponse (List DbWrite) := do
  runIf (clients ≠ []) (cacheDel .c12hr "clients_")
  Client.saveAll clients

/-! ### Roles -/

namespace Role

/-- `Role::create` -/
def create (name : String) : M ErrorResponse Role := do
  let roles ← Role.findAll
  throwIf (roles.any (·.name == name) = true) (err .badRequest "Role already exists")
  let id ← newStoreId
  let newRole : Role := { id, name }
  roleListing.insert roles newRole
  return newRole

def find (id : String) : M ErrorResponse Role := roleListing.find id

/-- `Role::delete` -/
def delete (id : String) : M ErrorResponse Unit := do
  let role ← Role.find id
  throwIf (role.name = roleAdmin)
    (err .badRequest "Anti-Lockout Rule: The 'rauthy_admin' role cannot be deleted")
  let all ← User.findAll
  let users := (all.filter fun u => Text.contains u.roles role.name).map (·.deleteRole role.name)
  User.saveEdited users (.delete .roles fun r => r.id == id)
  roleListing.storeDeleted role.id

/-- A user whose role has got another name -/
def renameIn (oldName newName : String) (u : User) : User :=
  { u with roles := Text.replace u.roles oldName newName }

/-- `Role::update` -/
def update (id newName : String) : M ErrorResponse Role := do
  let role ← Role.find id
  let all ← User.findAll
  let users := (all.filter fun u => Text.contains u.roles role.name).map
    (renameIn role.name newName)
  User.saveEdited users (.update .roles (fun r => r.id == id) fun r => { r with name := newName })
  roleListing.storeUpdated role.id fun r => { r with name := newName }
  return { id, name := newName }

end Role

/-! ### Groups -/

namespace Group

/-- `Group::create` -/
def create (name : String) : M ErrorResponse Group := do
  let groups ← Group.findAll
  throwIf (groups.any (·.name == name) = true) (err .badRequest "Group already exists")
  let id ← newStoreId
  let newGroup : Group := { id, name }
  groupListing.insert groups newGroup
  return newGroup

def find (id : String) : M ErrorResponse Group := groupListing.find id

/-- `Group::delete` -/
def delete (id : String) : M ErrorResponse Unit := do
  let group ← Group.find id
  let all ← User.findAll
  let users := (all.filter fun u => u.groups.any (Text.contains · group.name)).map
    (·.deleteGroup group.name)
  User.saveEdited users (.delete .groups fun r => r.id == group.id)
  groupListing.storeDeleted group.id

/-- A user whose group has got another name -/
def renameIn (oldName newName : String) (u : User) : User :=
  { u with groups := u.groups.map (Text.replace · oldName newName) }

/-- `Group::update` -/
def update (id newName : String) : M ErrorResponse Group := do
  let group ← Group.find id
  let all ← User.findAll
  let users := (all.filter fun u => u.groups.any (Text.contains · group.name)).map
    (renameIn group.name newName)
  User.saveEdited users
    (.update .groups (fun r => r.id == group.id) fun r => { r with name := newName })
  groupListing.storeUpdated group.id fun r => { r with name := newName }
  return { id := group.id, name := newName }

end Group

/-! ### Attributes of users -/

namespace UserAttrConfigEntity

/-- `UserAttrConfigEntity::find`: cached under the name itself -/
def find (name : String) : M ErrorResponse UserAttrConfigEntity :=
  cached .users name CacheVal.userAttr? .userAttr (fetchOne .userAttrConfig fun a => a.name == name)

def findAll : M ErrorResponse (List UserAttrConfigEntity) :=
  cached .users "user_attrs_" CacheVal.userAttrs? .userAttrs (select .userAttrConfig fun _ => true)

end UserAttrConfigEntity

/-! ### Scopes -/

/-- `WellKnown::rebuild` -/
def WellKnown.rebuild (data : AppState) : M ErrorResponse Unit := do
  let scopes ← Scope.findAll
  cachePut .c12hr ".well-known" (.wellKnown (data.wellKnownJson data.issuer (scopes.map Scope.name)))

structure ScopeRequest where
  scope : String
  attrIncludeAccess : Option (List String)
  attrIncludeId : Option (List String)
  deriving DecidableEq, Inhabited

namespace Scope

/-- `Scope::clean_up_attrs` -/
def cleanUpAttrs (reqAttrs : Option (List String)) (existing : List UserAttrConfigEntity) :
    Option String :=
  reqAttrs.map fun attrs =>
    Text.join "," (attrs.filter fun a => a != "" && existing.any (·.name == a))

/-- The scope of a request, with the attributes that exist. -/
def fromReq (id : String) (req : ScopeRequest) (existing : List UserAttrConfigEntity) : Scope where
  id := id
  name := req.scope
  attrIncludeAccess := cleanUpAttrs req.attrIncludeAccess existing
  attrIncludeId := cleanUpAttrs req.attrIncludeId existing

/-- Only custom scopes have attributes. -/
def checkMapping (req : ScopeRequest) : M ErrorResponse Unit :=
  throwIf (isCustom req.scope = false ∧
      (req.attrIncludeAccess.isSome = true ∨ req.attrIncludeId.isSome = true))
    (err .badRequest "OpenID default scopes cannot have custom mappings")

/-- `Scope::create` -/
def create (data : AppState) (req : ScopeRequest) : M ErrorResponse Scope := do
  let scopes ← Scope.findAll
  throwIf (scopes.any (·.name == req.scope) = true) (err .badRequest "Scope already exists")
  checkMapping req
  let attrs ← UserAttrConfigEntity.findAll
  let id ← newStoreId
  let newScope := fromReq id req attrs
  scopeListing.insert scopes newScope
  WellKnown.rebuild data
  return newScope

def find (id : String) : M ErrorResponse Scope := scopeListing.find id

/-- A client has the scope in one of its texts. -/
def isIn (name : String) (c : Client) : Bool :=
  Text.contains c.scopes name || Text.contains c.defaultScopes name

/-- `Scope::delete` -/
def delete (data : AppState) (id : String) : M ErrorResponse Unit := do
  let scope ← Scope.find id
  throwIf (scope.name = "openid") (err .badRequest "The 'openid' scope cannot be deleted")
  let all ← Client.findAll
  let clients := (all.filter (isIn scope.name)).map (·.deleteScope scope.name)
  -- the list of the clients goes before the transaction begins
  runIf (clients ≠ []) (cacheDel .c12hr "clients_")
  execute []
  let stmts ← Client.saveAll clients
  execute []
  execute (stmts ++ [.delete .scopes fun r => r.id == id])
  scopeListing.storeDeleted scope.id
  WellKnown.rebuild data

/-- A client whose scope has got another name -/
def renameIn (oldName newName : String) (c : Client) : Client :=
  { c with
    scopes := Text.replace c.scopes oldName newName
    defaultScopes := Text.replace c.defaultScopes oldName newName }

/-- The clients of a scope that gets another name, saved -/
def saveRenamed (oldName newName : String) : M ErrorResponse (List DbWrite) :=
  if oldName = newName then return []
  else do
    let all ← Client.findAll
    Client.saveEdited ((all.filter (isIn oldName)).map (renameIn oldName newName))

/-- `Scope::update` -/
def update (data : AppState) (id : String) (req : ScopeRequest) : M ErrorResponse Scope := do
  let scope ← Scope.find id
  throwIf (scope.name = "openid") (err .badRequest "The 'openid' scope cannot be changed")
  checkMapping req
  execute []
  let stmts ← saveRenamed scope.name req.scope
  let attrs ← UserAttrConfigEntity.findAll
  let newScope := fromReq scope.id req attrs
  execute []
  execute (stmts ++ [.update .scopes (fun r => r.id == newScope.id) fun r => { newScope with id := r.id }])
  scopeListing.storeUpdated newScope.id fun _ => newScope
  runIf (scope.name ≠ req.scope) (WellKnown.rebuild data)
  return newScope

/-- `Scope::update_mapping_only` inside a transaction, with the statement for its commit -/
def updateMappingOnly (id : String) (access idToken : Option String) : M ErrorResponse DbWrite := do
  execute []
  scopeListing.storeUpdated id fun r => { r with attrIncludeAccess := access, attrIncludeId := idToken }
  return .update .scopes (fun r => r.id == id) fun r =>
    { r with attrIncludeAccess := access, attrIncludeId := idToken }

/-- One of the two lists of attributes, if the name occurs in it. -/
def editAttrs (name : String) (edit : String → Option String) (attrs : Option String) :
    Option String :=
  attrs.bind fun a => if Text.contains a name then edit a else some a

/-- The name occurs in one of the two lists. -/
def needsUpdate (name : String) (s : Scope) : Bool :=
  s.attrIncludeAccess.any (Text.contains · name) || s.attrIncludeId.any (Text.contains · name)

/-- The loop over the scopes in `UserAttrConfigEntity::delete` and `update` -/
def editMappings (name : String) (edit : String → Option String) :
    List Scope → M ErrorResponse (List DbWrite)
  | [] => return []
  | s :: ss => do
      if needsUpdate name s then
        let stmt ← updateMappingOnly s.id (editAttrs name edit s.attrIncludeAccess)
          (editAttrs name edit s.attrIncludeId)
        let stmts ← editMappings name edit ss
        return stmt :: stmts
      else editMappings name edit ss

end Scope

/-! ### Attributes of users, with the scopes that name them -/

namespace UserAttrConfigEntity

structure UserAttrConfigRequest where
  name : String
  desc : Option String
  deriving DecidableEq, Inhabited

/-- A list of attributes without one of them -/
def removeAttr (name attrs : String) : Option String :=
  let a := Text.replace (Text.replace attrs (name ++ ",") "") name ""
  if a = "" then none else some a

/-- `UserAttrValueEntity::delete_all_by_key` inside a transaction, with the statement for its
commit: the lists of the users are dropped from the cache. -/
def deleteAllByKey (key : String) : M ErrorResponse DbWrite := do
  let rows ← select .userAttrValues fun a => a.key == key
  forEach (fun a => cacheDel .users (UserAttrValueEntity.cacheIdx a.userId)) rows
  execute []
  return .delete .userAttrValues fun a => a.key == key

/-- `UserAttrConfigEntity::delete` -/
def delete (name : String) : M ErrorResponse Unit := do
  let _ ← find name
  execute []
  let scopes ← Scope.findAll
  let stmts ← Scope.editMappings name (removeAttr name) scopes
  cacheDel .users name
  let stmt ← deleteAllByKey name
  execute []
  execute (stmts ++ [stmt, .delete .userAttrConfig fun a => a.name == name])
  let attrs ← findAll
  cachePut .users "user_attrs_" (.userAttrs (attrs.filter fun a => a.name != name))

/-- `update user_attr_config …`, with the values that the foreign key changes along. -/
def updateStmts (name : String) (req : UserAttrConfigRequest) : List DbWrite :=
  [.update .userAttrConfig (fun a => a.name == name) fun _ => { name := req.name, desc := req.desc },
   .update .userAttrValues (fun a => a.key == name) fun a => { a with key := req.name }]

/-- The users whose lists of attributes are dropped from the cache at the end -/
def valueOwners (name : String) (req : UserAttrConfigRequest) : M ErrorResponse (List String) :=
  if name = req.name then return []
  else do
    let rows ← select .userAttrValues fun a => a.key == name
    return rows.map (·.userId)

/-- The scopes, if the name changes -/
def editRenamed (name : String) (req : UserAttrConfigRequest) : M ErrorResponse (List DbWrite) :=
  if name = req.name then return []
  else do
    let scopes ← Scope.findAll
    Scope.editMappings name (fun a => some (Text.replace a name req.name)) scopes

/-- `UserAttrConfigEntity::update` -/
def update (name : String) (req : UserAttrConfigRequest) : M ErrorResponse UserAttrConfigEntity := do
  let _ ← find name
  let slf : UserAttrConfigEntity := { name := req.name, desc := req.desc }
  let owners ← valueOwners name req
  execute []
  execute []
  let stmts ← editRenamed name req
  execute (updateStmts name req ++ stmts)
  let attrs ← findAll
  cachePut .users "user_attrs_" (.userAttrs (attrs.map fun a => if a.name = name then slf else a))
  forEach (fun userId => cacheDel .users (UserAttrValueEntity.cacheIdx userId)) owners
  return slf

end UserAttrConfigEntity

end Rauthy
