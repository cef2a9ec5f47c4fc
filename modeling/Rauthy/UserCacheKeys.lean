/-
Rauthy/UserCacheKeys.lean

The cache about users holds entries of several kinds, told apart by their keys only.  A key is a
prefix with an id or an e-mail behind it, except for an attribute, whose key is its bare name; and a
name can spell out a prefix.

Main results:
  * `reserved_iff`: the names that are keys of entries of other kinds;
  * `entries_apart_iff`: no call about one kind of entry touches one of another kind iff no
    attribute has a reserved name.
-/
import Rauthy.AttrCaches
import Rauthy.UserCaches

namespace Rauthy

open Prog

def WebId.cacheIdx (userId : String) : String := "web_id_" ++ userId

/-- `User::exists` -/
def User.exists (id : String) : M ErrorResponse Unit := do
  match ← cacheGet .users (User.cacheIdx id) CacheVal.user? with
  | some _ => return ()
  | none =>
      let _ ← fetchOne .users fun u => u.id == id
      return ()

namespace UserAttrValueEntity

structure UserAttrValueRequest where
  key : String
  value : JsonValue

/-- The statement for one value: an empty string and `null` delete it. -/
def updateValue (userId : String) (req : UserAttrValueRequest) : DbWrite :=
  if req.value = ⟨true, "\"\""⟩ ∨ req.value = ⟨false, "null"⟩ then
    .delete .userAttrValues fun a => a.userId == userId && a.key == req.key
  else .upsert .userAttrValues ⟨userId, req.key, Text.asBytes req.value.text⟩

/-- `UserAttrValueEntity::update_for_user` -/
def updateForUser (userId : String) (values : List UserAttrValueRequest) :
    M ErrorResponse (List UserAttrValueEntity) := do
  User.exists userId
  forEach (fun value => execute [updateValue userId value]) values
  let res ← select .userAttrValues fun a => a.userId == userId
  cachePut .users (cacheIdx userId) (.userAttrValues res)
  return res

end UserAttrValueEntity

/-- The entries of `CACHE_NAME_USERS`.  A user is kept under the id and under the e-mail. -/
inductive UsersEntry where
  | user (idOrEmail : String)
  | attrConfigs
  | attrConfig (name : String)
  | attrValues (userId : String)
  | userValues (userId : String)
  | webId (userId : String)

inductive UsersKind where
  | user | attrConfigs | attrConfig | attrValues | userValues | webId
  deriving DecidableEq

namespace UsersEntry

@[simp] def kind : UsersEntry → UsersKind
  | user _ => .user
  | attrConfigs => .attrConfigs
  | attrConfig _ => .attrConfig
  | attrValues _ => .attrValues
  | userValues _ => .userValues
  | webId _ => .webId

def key : UsersEntry → String
  | user k => User.cacheIdx k
  | attrConfigs => "user_attrs_"
  | attrConfig name => name
  | attrValues userId => UserAttrValueEntity.cacheIdx userId
  | userValues userId => UserValues.cacheIdx userId
  | webId userId => WebId.cacheIdx userId

/-- Ids and e-mails are not empty, and attributes have the given names. -/
def Admitted (names : Set String) : UsersEntry → Prop
  | user k => k ≠ ""
  | attrConfigs => True
  | attrConfig name => name ∈ names
  | attrValues userId => userId ≠ ""
  | userValues userId => userId ≠ ""
  | webId userId => userId ≠ ""

end UsersEntry

/-- The keys of `CACHE_NAME_USERS` that an operation reads, overwrites or evicts are in `P`. -/
def Op.OnUsers (P : String → Prop) : Op → Prop
  | .cacheGet .users k => P k
  | .cachePut .users k _ => P k
  | .cacheDel .users k => P k
  | _ => True

/-- The calls about users that use the cache. -/
inductive UsersCall where
  | findUser (id : String)
  | findByEmail (data : AppState) (email : String)
  | saveUser (data : AppState) (u : User) (oldEmail : Option String)
  | deleteUser (u : User)
  | attr (c : AttrCall)
  | findValues (userId : String)
  | updateValues (userId : String) (values : List UserAttrValueEntity.UserAttrValueRequest)
  | findUserValues (userId : String)
  | upsertUserValues (userId : String) (values : UserValuesRequest)

namespace UsersCall

/-- Calls that answer with something, as calls that do not. -/
def discard {α : Type} (p : M ErrorResponse α) : M ErrorResponse Unit := do
  let _ ← p
  return ()

def prog : UsersCall → M ErrorResponse Unit
  | findUser id => discard (User.find id)
  | findByEmail data email => discard (User.findByEmail data email)
  | saveUser data u oldEmail => u.save data oldEmail
  | deleteUser u => u.delete
  | attr c => c.prog
  | findValues userId => discard (UserAttrValueEntity.findForUser userId)
  | updateValues userId values => discard (UserAttrValueEntity.updateForUser userId values)
  | findUserValues userId => discard (UserValues.find userId)
  | upsertUserValues userId values => discard (UserValues.upsert userId values)

/-- The kinds of entries that the call is about.  Renaming and deleting an attribute also evict
the values of the users that have it, and the update of values looks up their user. -/
@[simp] def kinds : UsersCall → List UsersKind
  | findUser _ => [.user]
  | findByEmail _ _ => [.user]
  | saveUser _ _ _ => [.user]
  | deleteUser _ => [.user]
  | attr (.create _) => [.attrConfig, .attrConfigs]
  | attr (.update _ _) => [.attrConfig, .attrConfigs, .attrValues]
  | attr (.delete _) => [.attrConfig, .attrConfigs, .attrValues]
  | attr (.find _) => [.attrConfig]
  | attr .findAll => [.attrConfigs]
  | findValues _ => [.attrValues]
  | updateValues _ _ => [.user, .attrValues]
  | findUserValues _ => [.userValues]
  | upsertUserValues _ _ => [.userValues]

/-- What the call is given: ids and e-mails, and names of attributes. -/
def Admitted (names : Set String) : UsersCall → Prop
  | findUser id => id ≠ ""
  | findByEmail data email => data.toLowercase email ≠ ""
  | saveUser data u oldEmail =>
      u.id ≠ "" ∧ u.email ≠ "" ∧ data.toLowercase u.email ≠ "" ∧ ∀ e, oldEmail = some e → e ≠ ""
  | deleteUser u => u.id ≠ "" ∧ u.email ≠ ""
  | attr (.create req) => req.name ∈ names
  | attr (.update name _) => name ∈ names
  | attr (.delete name) => name ∈ names
  | attr (.find name) => name ∈ names
  | attr .findAll => True
  | findValues userId => userId ≠ ""
  | updateValues userId _ => userId ≠ ""
  | findUserValues userId => userId ≠ ""
  | upsertUserValues userId _ => userId ≠ ""

end UsersCall

/-- Entries of different kinds have different keys, and no call about some kinds of entries reads,
overwrites or evicts an entry of another kind. -/
structure EntriesApart (names : Set String) : Prop where
  keys : ∀ a b : UsersEntry, a.Admitted names → b.Admitted names → a.kind ≠ b.kind → a.key ≠ b.key
  calls : ∀ c : UsersCall, c.Admitted names → ∀ b : UsersEntry, b.Admitted names →
    b.kind ∉ c.kinds → c.prog.Within (Op.OnUsers fun k => k ≠ b.key)

/-- The name is the key of the list, or a prefix with something behind it. -/
def reserved (name : String) : Bool :=
  name == "user_attrs_" || ["users__", "user_attrs_", "users_values__", "web_id_"].any fun p =>
    Text.startsWith name p && name != p

/-! ### Keys -/

section Keys

variable {names : Set String} {name p : String} {a b : UsersEntry}

theorem startsWith_ne_iff : (Text.startsWith name p && name != p) = true ↔ ∃ s, s ≠ "" ∧ name = p ++ s := by
  rw [Bool.and_eq_true, Text.startsWith_iff, bne_iff_ne]
  constructor
  · rintro ⟨⟨s, hs⟩, hne⟩
    have hname : name = p ++ String.ofList s := by
      apply String.toList_inj.mp
      rw [String.toList_append, String.toList_ofList, hs]
    refine ⟨String.ofList s, fun hempty => hne ?_, hname⟩
    rw [hname, hempty, String.append_empty]
  · rintro ⟨s, hne, rfl⟩
    refine ⟨?_, fun he => hne ?_⟩
    · rw [String.toList_append]
      exact List.prefix_append _ _
    · have hs : p.toList ++ s.toList = p.toList := by rw [← String.toList_append, he]
      exact String.toList_eq_nil_iff.mp (List.append_right_eq_self.mp hs)

/-- **The reserved names** are the keys of the entries that are no attributes. -/
theorem reserved_iff : reserved name = true ↔
    ∃ b : UsersEntry, b.kind ≠ .attrConfig ∧ b.Admitted names ∧ b.key = name := by
  simp only [reserved, Bool.or_eq_true, beq_iff_eq, List.any_cons, List.any_nil, Bool.or_false,
    startsWith_ne_iff]
  constructor
  · rintro (rfl | ⟨s, hs, rfl⟩ | ⟨s, hs, rfl⟩ | ⟨s, hs, rfl⟩ | ⟨s, hs, rfl⟩)
    · exact ⟨.attrConfigs, by simp, trivial, rfl⟩
    · exact ⟨.user s, by simp, hs, rfl⟩
    · exact ⟨.attrValues s, by simp, hs, rfl⟩
    · exact ⟨.userValues s, by simp, hs, rfl⟩
    · exact ⟨.webId s, by simp, hs, rfl⟩
  · rintro ⟨b, hkind, hb, rfl⟩
    cases b with
    | user k => exact .inr (.inl ⟨k, hb, rfl⟩)
    | attrConfigs => exact .inl rfl
    | attrConfig n => exact absurd rfl hkind
    | attrValues id => exact .inr (.inr (.inl ⟨id, hb, rfl⟩))
    | userValues id => exact .inr (.inr (.inr (.inl ⟨id, hb, rfl⟩)))
    | webId id => exact .inr (.inr (.inr (.inr ⟨id, hb, rfl⟩)))

/-- Keys of entries that are no attributes: their prefixes differ in a character, or the one of the
list has nothing behind it. -/
theorem key_ne (ha : a.Admitted names) (hb : b.Admitted names) (hka : a.kind ≠ .attrConfig)
    (hkb : b.kind ≠ .attrConfig) (hkind : a.kind ≠ b.kind) : a.key ≠ b.key := by
  intro he
  have hkey := congrArg String.toList he
  cases a <;> cases b <;> simp [UsersEntry.key, UsersEntry.Admitted, User.cacheIdx,
    UserAttrValueEntity.cacheIdx, UserValues.cacheIdx, WebId.cacheIdx] at *
  -- the list and the values of a user
  · exact hb hkey
  · exact ha hkey

/-- The entries have different keys if no name is reserved. -/
theorem keys_apart (hnames : ∀ n ∈ names, reserved n = false) (ha : a.Admitted names)
    (hb : b.Admitted names) (hkind : a.kind ≠ b.kind) : a.key ≠ b.key := by
  -- an attribute and another entry
  have hattr : ∀ {a b : UsersEntry}, a.Admitted names → b.Admitted names → a.kind = .attrConfig →
      b.kind ≠ .attrConfig → a.key ≠ b.key := by
    intro a b ha hb hka hkb he
    cases a with
    | attrConfig n =>
        have hres : reserved n = true := reserved_iff.mpr ⟨b, hkb, hb, he.symm⟩
        rw [hnames n ha] at hres
        cases hres
    | _ => cases hka
  by_cases hka : a.kind = .attrConfig
  · exact hattr ha hb hka fun hkb => hkind (hka.trans hkb.symm)
  · by_cases hkb : b.kind = .attrConfig
    · exact (hattr hb ha hkb hka).symm
    · exact key_ne ha hb hka hkb hkind

end Keys

/-! ### Calls -/

section Calls

variable {α β : Type} {P : String → Prop} {names : Set String}
  {k name : String}
  {req : UserAttrConfigRequest}

theorem onUsers_of_spares {p : M ErrorResponse α} (h : Spares .users p) :
    p.Within (Op.OnUsers P) := by
  refine Within.mono h fun o ho => ?_
  cases o with
  | cacheGet c k => cases c <;> first | exact absurd rfl ho | trivial
  | cachePut c k v => cases c <;> first | exact absurd rfl ho | trivial
  | cacheDel c k => cases c <;> first | exact absurd rfl ho | trivial
  | _ => trivial

theorem onUsers_cachePut (h : P k) (v : CacheVal) :
    (cachePut .users k v).Within (Op.OnUsers P) := ⟨h, fun x => within_answer x⟩

theorem onUsers_cacheDel (h : P k) : (cacheDel .users k).Within (Op.OnUsers P) :=
  ⟨h, fun x => within_answer x⟩

theorem onUsers_cacheGet (h : P k) (as : CacheVal → Option α) :
    (cacheGet .users k as).Within (Op.OnUsers P) := by
  refine within_bind ⟨h, fun x => within_answer x⟩ fun v => ?_
  rcases v with - | v
  · trivial
  · exact within_bind (within_okOr _ _) fun _ => trivial

theorem onUsers_cached (h : P k) {as : CacheVal → Option α} {wrap : α → CacheVal}
    {load : M ErrorResponse α} (hl : Spares .users load) :
    (cached .users k as wrap load).Within (Op.OnUsers P) := by
  refine within_bind (onUsers_cacheGet h as) fun x => ?_
  rcases x with - | a
  · exact within_bind (onUsers_of_spares hl) fun a => within_bind (onUsers_cachePut h _) fun _ => trivial
  · trivial

theorem onUsers_discard {p : M ErrorResponse α} (h : p.Within (Op.OnUsers P)) :
    (UsersCall.discard p).Within (Op.OnUsers P) := within_bind h fun _ => trivial

/-! #### Users -/

theorem Session.deleteByUser_spares (userId : String) : Spares .users (Session.deleteByUser userId) :=
  spares_bind (spares_select _ _) fun _ => spares_bind (spares_execute _) fun _ =>
    within_forEach fun _ _ => spares_cacheDel (by decide) _

theorem User.count_spares : Spares .users User.count :=
  spares_cached (by decide) (spares_bind (spares_select _ _) fun _ => trivial)

theorem User.find_onUsers (h : P (User.cacheIdx k)) :
    (User.find k).Within (Op.OnUsers P) := onUsers_cached h (spares_fetchOne _ _)

theorem User.findByEmail_onUsers {data : AppState} {email : String}
    (h : P (User.cacheIdx (data.toLowercase email))) :
    (User.findByEmail data email).Within (Op.OnUsers P) := onUsers_cached h (spares_fetchOne _ _)

theorem User.save_onUsers {data : AppState} {u : User} {oldEmail : Option String}
    (hid : P (User.cacheIdx u.id)) (hemail : P (User.cacheIdx u.email))
    (hlower : P (User.cacheIdx (data.toLowercase u.email)))
    (hold : ∀ e, oldEmail = some e → P (User.cacheIdx e)) :
    (u.save data oldEmail).Within (Op.OnUsers P) := by
  refine within_bind (within_runIf fun _ => ?_) fun _ => ?_
  · refine within_bind (within_tried (User.findByEmail_onUsers hlower)) fun r => ?_
    rcases r with e | v <;> trivial
  · refine within_bind (onUsers_of_spares (spares_execute _)) fun _ => ?_
    refine within_bind (within_runIf fun _ => ?_) fun _ => ?_
    · refine within_bind (onUsers_of_spares (Session.invalidateForUser_spares (by decide) _)) fun _ => ?_
      exact onUsers_of_spares (spares_bind spares_unixTimestamp fun _ => spares_execute _)
    · refine within_bind (within_forEach fun e he => ?_) fun _ => ?_
      · exact onUsers_cacheDel (hold e (Option.mem_toList.mp he))
      · exact within_bind (onUsers_cachePut hid _) fun _ => onUsers_cachePut hemail _

theorem User.delete_onUsers {u : User} (hid : P (User.cacheIdx u.id))
    (hemail : P (User.cacheIdx u.email)) : u.delete.Within (Op.OnUsers P) := by
  refine within_bind (onUsers_of_spares (Session.deleteByUser_spares _)) fun _ => ?_
  refine within_bind (onUsers_of_spares (spares_execute _)) fun _ => ?_
  refine within_bind (onUsers_cacheDel hid) fun _ => within_bind (onUsers_cacheDel hemail) fun _ => ?_
  refine onUsers_of_spares (spares_bind User.count_spares fun _ => ?_)
  exact spares_cachePut (by decide) _ _

/-! #### Attributes and values -/

open UserAttrConfigEntity

theorem UserAttrConfigEntity.find_onUsers (h : P name) :
    (find name).Within (Op.OnUsers P) := onUsers_cached h (spares_fetchOne _ _)

theorem UserAttrConfigEntity.findAll_onUsers (h : P "user_attrs_") :
    findAll.Within (Op.OnUsers P) := onUsers_cached h (spares_select _ _)

theorem UserAttrConfigEntity.create_onUsers (hname : P req.name) (hlist : P "user_attrs_") :
    (create req).Within (Op.OnUsers P) := by
  refine within_bind (within_tried (find_onUsers hname)) fun r => ?_
  rcases r with e | a
  · refine within_bind (onUsers_of_spares (spares_execute _)) fun _ => ?_
    refine within_bind (findAll_onUsers hlist) fun _ => ?_
    exact within_bind (onUsers_cachePut hlist _) fun _ => trivial
  · trivial

theorem Listing.storeUpdated_spares {t : Table} (L : Listing t) (id : String) (f : Row t → Row t) :
    Spares .users (L.storeUpdated id f) :=
  spares_bind (spares_cached (by decide) (spares_select _ _)) fun _ => spares_cachePut (by decide) _ _

theorem Scope.editMappings_spares (name : String) (edit : String → Option String) (ss : List Scope) :
    Spares .users (Scope.editMappings name edit ss) := by
  induction ss with
  | nil => trivial
  | cons s ss ih =>
      unfold Scope.editMappings
      split
      · refine spares_bind ?_ fun _ => spares_bind ih fun _ => trivial
        refine spares_bind (spares_execute _) fun _ => spares_bind ?_ fun _ => trivial
        exact Listing.storeUpdated_spares _ _ _
      · exact ih

theorem Scope.findAll_spares : Spares .users Scope.findAll :=
  spares_cached (by decide) (spares_select _ _)

theorem UserAttrConfigEntity.delete_onUsers (hname : P name) (hlist : P "user_attrs_")
    (hvalues : ∀ id, P (UserAttrValueEntity.cacheIdx id)) :
    (delete name).Within (Op.OnUsers P) := by
  refine within_bind (find_onUsers hname) fun _ => ?_
  refine within_bind (onUsers_of_spares (spares_execute _)) fun _ => ?_
  refine within_bind (onUsers_of_spares Scope.findAll_spares) fun _ => ?_
  refine within_bind (onUsers_of_spares (Scope.editMappings_spares _ _ _)) fun _ => ?_
  refine within_bind (onUsers_cacheDel hname) fun _ => within_bind ?_ fun _ => ?_
  · refine within_bind (onUsers_of_spares (spares_select _ _)) fun _ => within_bind ?_ fun _ => ?_
    · exact within_forEach fun a _ => onUsers_cacheDel (hvalues a.userId)
    · exact within_bind (onUsers_of_spares (spares_execute _)) fun _ => trivial
  · refine within_bind (onUsers_of_spares (spares_execute _)) fun _ => ?_
    refine within_bind (onUsers_of_spares (spares_execute _)) fun _ => ?_
    exact within_bind (findAll_onUsers hlist) fun _ => onUsers_cachePut hlist _

theorem UserAttrConfigEntity.update_onUsers (hname : P name) (hlist : P "user_attrs_")
    (hvalues : ∀ id, P (UserAttrValueEntity.cacheIdx id)) :
    (update name req).Within (Op.OnUsers P) := by
  have howners : Spares .users (valueOwners name req) := by
    unfold valueOwners
    split
    · trivial
    · exact spares_bind (spares_select _ _) fun _ => trivial
  have hscopes : Spares .users (editRenamed name req) := by
    unfold editRenamed
    split
    · trivial
    · exact spares_bind Scope.findAll_spares fun _ => Scope.editMappings_spares _ _ _
  refine within_bind (find_onUsers hname) fun _ => ?_
  refine within_bind (onUsers_of_spares howners) fun owners => ?_
  refine within_bind (onUsers_of_spares (spares_execute _)) fun _ => ?_
  refine within_bind (onUsers_of_spares (spares_execute _)) fun _ => ?_
  refine within_bind (onUsers_of_spares hscopes) fun _ => ?_
  refine within_bind (onUsers_of_spares (spares_execute _)) fun _ => ?_
  refine within_bind (findAll_onUsers hlist) fun _ => ?_
  refine within_bind (onUsers_cachePut hlist _) fun _ => within_bind ?_ fun _ => trivial
  exact within_forEach fun id _ => onUsers_cacheDel (hvalues id)

theorem User.exists_onUsers (h : P (User.cacheIdx k)) :
    (User.exists k).Within (Op.OnUsers P) := by
  refine within_bind (onUsers_cacheGet h _) fun u => ?_
  rcases u with - | u
  · exact onUsers_of_spares (spares_bind (spares_fetchOne _ _) fun _ => trivial)
  · trivial

theorem UserAttrValueEntity.updateForUser_onUsers {userId : String}
    {values : List UserAttrValueRequest} (huser : P (User.cacheIdx userId))
    (hvalues : P (cacheIdx userId)) : (updateForUser userId values).Within (Op.OnUsers P) := by
  refine within_bind (User.exists_onUsers huser) fun _ => ?_
  refine within_bind (within_forEach fun v _ => onUsers_of_spares (spares_execute _)) fun _ => ?_
  refine within_bind (onUsers_of_spares (spares_select _ _)) fun res => ?_
  exact within_bind (onUsers_cachePut hvalues _) fun _ => trivial

theorem UserValues.find_onUsers {userId : String} (h : P (UserValues.cacheIdx userId)) :
    (UserValues.find userId).Within (Op.OnUsers P) := by
  refine within_bind (within_tried (onUsers_cacheGet h _)) fun r => ?_
  have hload : (do
      let slf ← fetchOptional .usersValues fun v => v.id == userId
      cachePut .users (UserValues.cacheIdx userId) (.userValues slf)
      return slf : M ErrorResponse (Option UserValues)).Within (Op.OnUsers P) := by
    refine within_bind (onUsers_of_spares ?_) fun _ => within_bind (onUsers_cachePut h _) fun _ => trivial
    exact spares_bind (spares_select _ _) fun _ => trivial
  rcases r with e | - | values
  · exact hload
  · exact hload
  · trivial

theorem UsersCall.prog_onUsers {c : UsersCall} (hc : c.Admitted names)
    (hP : ∀ e : UsersEntry, e.Admitted names → e.kind ∈ c.kinds → P e.key) :
    c.prog.Within (Op.OnUsers P) := by
  -- the values of a user without an id would be under the key of the list
  have hvalues : (∀ id, id ≠ "" → P (UserAttrValueEntity.cacheIdx id)) → P "user_attrs_" →
      ∀ id, P (UserAttrValueEntity.cacheIdx id) := by
    intro hids hlist id
    by_cases hid : id = ""
    · rw [hid]
      exact hlist
    · exact hids id hid
  cases c with
  | findUser id => exact onUsers_discard (User.find_onUsers (hP (.user id) hc (by simp)))
  | findByEmail data email =>
      exact onUsers_discard (User.findByEmail_onUsers (hP (.user _) hc (by simp)))
  | saveUser data u oldEmail =>
      obtain ⟨hid, hemail, hlower, hold⟩ := hc
      exact User.save_onUsers (hP (.user _) hid (by simp)) (hP (.user _) hemail (by simp))
        (hP (.user _) hlower (by simp)) fun e he => hP (.user e) (hold e he) (by simp)
  | deleteUser u =>
      exact User.delete_onUsers (hP (.user _) hc.1 (by simp)) (hP (.user _) hc.2 (by simp))
  | attr c =>
      cases c with
      | create req =>
          exact onUsers_discard (create_onUsers (hP (.attrConfig _) hc (by simp))
            (hP .attrConfigs trivial (by simp)))
      | update name req =>
          have hlist := hP .attrConfigs trivial (by simp)
          exact onUsers_discard (update_onUsers (hP (.attrConfig _) hc (by simp)) hlist
            (hvalues (fun id hid => hP (.attrValues id) hid (by simp)) hlist))
      | delete name =>
          have hlist := hP .attrConfigs trivial (by simp)
          exact delete_onUsers (hP (.attrConfig _) hc (by simp)) hlist
            (hvalues (fun id hid => hP (.attrValues id) hid (by simp)) hlist)
      | find name => exact onUsers_discard (find_onUsers (hP (.attrConfig _) hc (by simp)))
      | findAll => exact onUsers_discard (findAll_onUsers (hP .attrConfigs trivial (by simp)))
  | findValues userId =>
      exact onUsers_discard (onUsers_cached (hP (.attrValues _) hc (by simp)) (spares_select _ _))
  | updateValues userId values =>
      exact onUsers_discard (UserAttrValueEntity.updateForUser_onUsers
        (hP (.user _) hc (by simp)) (hP (.attrValues _) hc (by simp)))
  | findUserValues userId =>
      exact onUsers_discard (UserValues.find_onUsers (hP (.userValues _) hc (by simp)))
  | upsertUserValues userId values =>
      refine onUsers_discard (within_bind (onUsers_of_spares (spares_execute _)) fun _ => ?_)
      exact within_bind (onUsers_cachePut (hP (.userValues _) hc (by simp)) _) fun _ => trivial

end Calls

/-- **Entries of different kinds stay apart iff no attribute has a reserved name.** -/
theorem entries_apart_iff (names : Set String) :
    EntriesApart names ↔ ∀ n ∈ names, reserved n = false := by
  constructor
  · intro h n hn
    by_contra hres
    obtain ⟨b, hkind, hb, hkey⟩ := reserved_iff.mp (Bool.not_eq_false _ |>.mp hres)
    exact h.keys (.attrConfig n) b hn hb (Ne.symm hkind) hkey.symm
  · intro hnames
    refine ⟨fun a b ha hb hkind => keys_apart hnames ha hb hkind, fun c hc b hb hb' => ?_⟩
    refine UsersCall.prog_onUsers hc fun e he hkind => keys_apart hnames he hb fun hsame => hb' ?_
    rw [← hsame]
    exact hkind

/-- An attribute may be named like the key of the list. -/
theorem attribute_under_list_key :
    ¬ ∀ names : Set String, (∀ n ∈ names, reAttr n = true) → EntriesApart names := by
  intro hall
  have hapart := hall {"user_attrs_"} fun n hn => by
    rw [Set.mem_singleton_iff.mp hn]
    decide
  exact hapart.keys (.attrConfig "user_attrs_") .attrConfigs rfl trivial (by decide) rfl

end Rauthy
