/-
Rauthy/CustomClaims.lean

The custom claims of the tokens: the attributes of the user that the granted custom scopes map
into the access token and into the id token.  Both builders share one map of the attributes, which
is read only if one of them needs it.

Main results:
  * `unwraps_fromUser`: no builder finds the map missing;
  * `custom_claims_exact`: which attributes the two tokens contain.
-/
import Rauthy.TokenSet

namespace Rauthy

open Prog

/-- The caches have the scopes and the attributes of the user as the tables have them. -/
structure StoresAttrs (w : World) (user : User) : Prop where
  scopes : ∀ v, w.cache .c12hr "scopes_" = some (.scopes v) → v = w.db .scopes
  attrs : ∀ v, w.cache .users (UserAttrValueEntity.cacheIdx user.id) = some (.userAttrValues v) →
    v = (w.db .userAttrValues).filter fun a => a.userId == user.id
  /-- `(user_id, key)` is the primary key -/
  unique : ∀ a ∈ w.db .userAttrValues, ∀ b ∈ w.db .userAttrValues,
    sameKey .userAttrValues a b = true → a = b

/-- A granted custom scope maps the attribute into the token. -/
def Mapped (w : World) (scope : String) (field : Scope → Option String) (name : String) : Prop :=
  ∃ s ∈ w.db .scopes, s.name ∈ Text.split ' ' scope ∧
    s.name ∉ ["openid", "profile", "email", "groups"] ∧
    ∃ csv, field s = some csv ∧ name ∈ Text.split ',' csv

/-- The user has this value for the attribute. -/
def HasAttr (data : AppState) (w : World) (user : User) (name json : String) : Prop :=
  ∃ a ∈ w.db .userAttrValues, a.userId = user.id ∧ a.key = name ∧
    data.jsonFromSlice a.value = some json

/-- The custom claims are the mapped attributes of the user, each of them once. -/
structure CustomsExact (data : AppState) (w : World) (user : User) (scope : String)
    (field : Scope → Option String) (custom : Option (List (String × String))) : Prop where
  pairs : ∀ name json, (name, json) ∈ custom.getD [] ↔
    Mapped w scope field name ∧ HasAttr data w user name json
  keys : ((custom.getD []).map Prod.fst).Nodup
  nonempty : custom ≠ some []

/-! ### The map of the attributes -/

section Missing

/-- The failure of the two `unwrap`s. -/
def attrsMissing : Fault ErrorResponse :=
  .panic "called `Option::unwrap()` on a `None` value"

/-- The other panics of a token set. -/
def tokenPanics : List String :=
  ["No latest JWK found - database corrupted?", "Converting cust user id attr to json",
    "attempt to subtract with overflow"]

/-- What a token set can fail with. -/
def TokenFault : Fault ErrorResponse → Prop
  | .err _ => True
  | .panic msg => msg ∈ tokenPanics

/-- The program may fail, but not with the missing map. -/
def Unwraps {α : Type} (p : M ErrorResponse α) (F : α → Prop) : Prop :=
  Ends TokenFault F p

variable {α β : Type} {F : α → Prop} {data : AppState}
  {lt : Int} {customs : Option ScopeCustoms} {client : Client} {fp : Option String}
  {dcf : DeviceCodeFlow} {user : User}
  {scopes : Option String}

theorem unwraps_answer (x : Except ErrorResponse α) : Unwraps (answer x) fun _ => True := by
  cases x with
  | ok a => trivial
  | error e => trivial

theorem unwraps_unwrap {msg : String} (h : msg ∈ tokenPanics) (x : Option α) :
    Unwraps (unwrap msg x) fun a => x = some a := by
  cases x with
  | some a => rfl
  | none => exact h

theorem unwraps_cachePut (c : CacheName) (k : String) (v : CacheVal) :
    Unwraps (cachePut c k v) fun _ => True := fun x => unwraps_answer x

theorem unwraps_select (t : Table) (p : Row t → Bool) :
    Unwraps (select t p) fun _ => True := fun x => unwraps_answer x

theorem unwraps_execute (ss : List DbWrite) : Unwraps (Rauthy.execute ss) fun _ => True :=
  fun x => unwraps_answer x

theorem unwraps_unixTimestamp : Unwraps unixTimestamp fun _ => True := fun _ => trivial

theorem unwraps_cacheGet (c : CacheName) (k : String) (as : CacheVal → Option α) :
    Unwraps (cacheGet c k as) fun _ => True := by
  refine ends_bind (fun x => unwraps_answer x) fun v _ => ?_
  rcases v with - | v
  · trivial
  · refine ends_bind (F := fun _ => True) ?_ fun _ _ => trivial
    cases as v <;> trivial

theorem unwraps_cached {c : CacheName} {k : String} {as : CacheVal → Option α}
    {wrap : α → CacheVal} {load : M ErrorResponse α} (hload : Unwraps load fun _ => True) :
    Unwraps (cached c k as wrap load) fun _ => True := by
  refine ends_bind (unwraps_cacheGet c k as) fun x _ => ?_
  rcases x with - | a
  · exact ends_bind hload fun a _ => ends_bind (unwraps_cachePut c k _) fun _ _ => trivial
  · trivial

theorem unwraps_findLatest (alg : String) (typ : JwkKeyPairAlg) :
    Unwraps (JwkKeyPair.findLatest data alg typ) fun _ => True := by
  refine unwraps_cached (ends_bind (unwraps_select _ _) fun rows _ => ?_)
  exact ends_bind (unwraps_unwrap (by decide) _) fun jwk _ => unwraps_answer _

theorem unwraps_newClaims {custom : α} {s n : Option String} {a : List String} :
    Unwraps (newClaims data custom lt s a n) fun _ => True :=
  ends_bind unwraps_unixTimestamp fun _ _ => trivial

/-- The map is there whenever a builder gets custom scopes. -/
def HasMap (customs : Option ScopeCustoms) : Prop :=
  ∀ cust attrs, customs = some (cust, attrs) → attrs.isSome = true

theorem unwraps_customAttrs (attrs : List UserAttrValueEntity) (attr : List (String × String))
    (names : List String) : Unwraps (customAttrs data attrs attr names) fun _ => True := by
  induction names generalizing attr with
  | nil => trivial
  | cons name names ih =>
      rw [customAttrs]
      split
      · exact ih attr
      · exact ends_bind (unwraps_unwrap (by decide) _) fun json _ => ih _

theorem unwraps_customClaims (h : HasMap customs) (field : Scope → Option String) :
    Unwraps (customClaims data field customs) fun _ => True := by
  rcases customs with - | ⟨cust, attrs⟩
  · trivial
  · obtain ⟨attrs, rfl⟩ := Option.isSome_iff_exists.mp (h cust attrs rfl)
    show Unwraps (scopeCustoms data (cust.map field) attrs) fun _ => True
    exact ends_bind (unwraps_customAttrs attrs [] _) fun _ _ => trivial

theorem unwraps_userAttrsFor (user : User) (needed : Bool) :
    Unwraps (TokenSet.userAttrsFor user needed)
      fun attrs => needed = true → attrs.isSome = true := by
  unfold TokenSet.userAttrsFor
  split
  · exact ends_bind (unwraps_cached (unwraps_select _ _)) fun _ _ _ => rfl
  · next h => exact fun hneeded => absurd hneeded h

theorem unwraps_customsOf (user : User) (scope : String) :
    Unwraps (TokenSet.customsOf user scope) fun c => HasMap c.1 ∧ HasMap c.2 := by
  have hnone : HasMap none := fun _ _ h => by cases h
  unfold TokenSet.customsOf
  dsimp only
  split
  · exact ⟨hnone, hnone⟩
  refine ends_bind (unwraps_cached (unwraps_select _ _)) fun scps _ => ?_
  refine ends_bind (unwraps_userAttrsFor user _) fun attrs hattrs => ⟨?_, ?_⟩
  · intro cust attrs' h
    dsimp only at h
    split at h
    · cases h
    · next hne =>
        cases h
        exact hattrs (by rw [Bool.eq_false_iff.mpr hne]; rfl)
  · intro cust attrs' h
    dsimp only at h
    split at h
    · cases h
    · next hne =>
        cases h
        exact hattrs (by rw [Bool.eq_false_iff.mpr hne]; exact Bool.or_true _)

theorem unwraps_lifetimeOf (user : User) (client : Client) :
    Unwraps (TokenSet.lifetimeOf user client) fun _ => True := by
  unfold TokenSet.lifetimeOf
  split
  · trivial
  · refine ends_bind unwraps_unixTimestamp fun now _ => ?_
    exact ends_bind (ends_throwIf trivial) fun _ _ => trivial

theorem unwraps_buildAccessToken {user : Option User} {scope : Option String} (h : HasMap customs) :
    Unwraps (buildAccessToken data user client fp lt scope customs dcf) fun _ => True := by
  refine ends_bind (unwraps_customClaims h _) fun custom _ => ?_
  refine ends_bind unwraps_newClaims fun claims _ => ?_
  refine ends_bind (unwraps_answer _) fun typ _ => ?_
  exact ends_bind (unwraps_findLatest _ _) fun kp _ => unwraps_answer _

theorem unwraps_findValues (id : String) : Unwraps (UserValues.find id) fun _ => True := by
  have hload : Unwraps (do
      let slf ← fetchOptional .usersValues fun v => v.id == id
      cachePut .users (UserValues.cacheIdx id) (.userValues slf)
      return slf) fun _ => True :=
    ends_bind (F := fun _ => True) (ends_bind (unwraps_select _ _) fun _ _ => trivial)
      fun _ _ => ends_bind (unwraps_cachePut _ _ _) fun _ _ => trivial
  refine ends_bind (F := fun _ => True) ?_ fun x _ => ?_
  · refine ends_bind (ends_attempt (unwraps_cacheGet _ _ _)) fun r hr => ?_
    rcases r with (e | msg) | a
    · trivial
    · exact hr _ rfl
    · trivial
  · rcases x with e | - | v
    · exact hload
    · exact hload
    · trivial

theorem unwraps_buildIdToken {nonce : Option String} {atHash scope : String} {acf : AuthCodeFlow}
    (h : HasMap customs) :
    Unwraps (buildIdToken data user client fp atHash lt nonce scope customs acf) fun _ => True := by
  refine ends_bind unwraps_unixTimestamp fun nowTs _ => ?_
  refine ends_bind (F := fun _ => True) ?_ fun values _ => ?_
  · unfold userValuesFor
    split
    · exact unwraps_findValues _
    · trivial
  refine ends_bind (unwraps_customClaims h _) fun custom _ => ?_
  refine ends_bind unwraps_newClaims fun claims _ => ?_
  refine ends_bind (unwraps_answer _) fun typ _ => ?_
  exact ends_bind (unwraps_findLatest _ _) fun kp _ => unwraps_answer _

theorem unwraps_refreshTokenFor :
    Unwraps (refreshTokenFor data user fp client lt scopes dcf) fun _ => True := by
  unfold refreshTokenFor
  split
  · refine ends_bind (F := fun _ => True) ?_ fun _ _ => trivial
    refine ends_bind unwraps_newClaims fun claims _ => ?_
    refine ends_bind (F := fun _ => True) ?_ fun token _ => ?_
    · refine ends_bind (unwraps_findLatest _ _) fun kp _ => ?_
      exact ends_bind (F := fun _ => True) (fun _ => trivial) fun noise _ => unwraps_answer _
    refine ends_bind (unwraps_unwrap (by decide) _) fun id _ => ?_
    refine ends_bind unwraps_unixTimestamp fun now _ => ?_
    dsimp only
    split
    · exact ends_bind (unwraps_execute _) fun _ _ => trivial
    · exact ends_bind (F := fun _ => True) (ends_bind (unwraps_execute _) fun _ _ => trivial)
        fun _ _ => trivial
  · trivial

/-- How a token set can fail: never with the missing map. -/
theorem unwraps_fromUser {nonce : Option String} {acf : AuthCodeFlow} :
    Unwraps (TokenSet.fromUser data user client fp nonce scopes acf dcf) fun _ => True := by
  unfold TokenSet.fromUser
  refine ends_bind (unwraps_customsOf user _) fun ⟨access, id⟩ h => ?_
  refine ends_bind (unwraps_lifetimeOf user client) fun lt _ => ?_
  refine ends_bind (unwraps_buildAccessToken h.1) fun accessToken _ => ?_
  refine ends_bind (unwraps_answer _) fun atHash _ => ?_
  refine ends_bind (unwraps_buildIdToken h.2) fun idToken _ => ?_
  exact ends_bind unwraps_refreshTokenFor fun refreshToken _ => trivial

end Missing

/-! ### The loop over the attributes -/

section Loop

variable {S : Type} {step : (o : Op) → S → o.Res → S → Prop} {s s' : S} {data : AppState}
  {attrs : List UserAttrValueEntity} {attr result : List (String × String)} {names : List String}

theorem mem_insertAttr {k v a x : String} :
    (a, x) ∈ insertAttr attr k v ↔ (a, x) ∈ attr ∧ a ≠ k ∨ a = k ∧ x = v := by
  rw [insertAttr, List.mem_append, List.mem_filter, List.mem_singleton, Prod.mk.injEq]
  simp

theorem nodup_insertAttr (h : (attr.map Prod.fst).Nodup) (k v : String) :
    ((insertAttr attr k v).map Prod.fst).Nodup := by
  rw [insertAttr, List.map_append, List.map_singleton]
  refine List.Nodup.append (h.sublist (List.filter_sublist.map _)) (List.nodup_singleton k) ?_
  intro a ha hk
  rw [List.mem_singleton] at hk
  obtain ⟨p, hp, rfl⟩ := List.mem_map.mp ha
  have hne := (List.mem_filter.mp hp).2
  rw [hk] at hne
  simp at hne

/-- The value of an attribute as it is put into a token. -/
def jsonOf (data : AppState) (attrs : List UserAttrValueEntity) (name : String) : Option String :=
  (lookupAttr attrs name).bind data.jsonFromSlice

/-- Every name of the list that has a value is in the result, besides what was there. -/
theorem exec_customAttrs (h : Exec step (customAttrs data attrs attr names) s (.ok result) s')
    (hattr : ∀ a v, (a, v) ∈ attr → jsonOf data attrs a = some v)
    (hkeys : (attr.map Prod.fst).Nodup) :
    (∀ a v, (a, v) ∈ result ↔ (a, v) ∈ attr ∨ a ∈ names ∧ jsonOf data attrs a = some v) ∧
    (result.map Prod.fst).Nodup := by
  induction names generalizing attr s with
  | nil =>
      obtain ⟨hret, -⟩ := exec_ret.mp h
      cases hret
      refine ⟨fun a v => ⟨.inl, fun h => h.resolve_right fun h => ?_⟩, hkeys⟩
      exact absurd h.1 List.not_mem_nil
  | cons name names ih =>
      rw [customAttrs] at h
      rcases hlookup : lookupAttr attrs name with - | value
      · -- an attribute without a value
        simp only [hlookup] at h
        obtain ⟨hpairs, hnodup⟩ := ih h hattr hkeys
        refine ⟨fun a v => ?_, hnodup⟩
        rw [hpairs, List.mem_cons]
        refine or_congr_right ⟨fun h => ⟨.inr h.1, h.2⟩, fun h => ⟨h.1.resolve_left ?_, h.2⟩⟩
        rintro rfl
        rw [jsonOf, hlookup] at h
        cases h.2
      · simp only [hlookup] at h
        obtain ⟨json, s₁, hunwrap, hrest⟩ := exec_bind_ok.mp h
        obtain ⟨hjson, rfl⟩ := exec_unwrap.mp hunwrap
        have hvalue : jsonOf data attrs name = some json := by
          rw [jsonOf, hlookup]
          exact hjson
        have hattr' : ∀ a v, (a, v) ∈ insertAttr attr name json → jsonOf data attrs a = some v := by
          intro a v hmem
          rcases mem_insertAttr.mp hmem with ⟨hmem, -⟩ | ⟨rfl, rfl⟩
          · exact hattr a v hmem
          · exact hvalue
        obtain ⟨hpairs, hnodup⟩ := ih hrest hattr' (nodup_insertAttr hkeys name json)
        refine ⟨fun a v => ?_, hnodup⟩
        rw [hpairs, mem_insertAttr, List.mem_cons]
        constructor
        · rintro ((⟨hmem, -⟩ | ⟨rfl, rfl⟩) | ⟨hmem, hv⟩)
          · exact .inl hmem
          · exact .inr ⟨.inl rfl, hvalue⟩
          · exact .inr ⟨.inr hmem, hv⟩
        · rintro (hmem | ⟨rfl | hmem, hv⟩)
          · by_cases ha : a = name
            · -- the value that was there is the same
              subst ha
              have hsame := (hattr a v hmem).symm.trans hvalue
              exact .inl (.inr ⟨rfl, Option.some.inj hsame⟩)
            · exact .inl (.inl ⟨hmem, ha⟩)
          · exact .inl (.inr ⟨rfl, Option.some.inj (hv.symm.trans hvalue)⟩)
          · exact .inr ⟨hmem, hv⟩

end Loop

/-! ### The attributes of the tokens -/

section Exact

variable {data : AppState} {w w' : World} {user : User} {scope : String}
  {field : Scope → Option String}
  {name : String}

/-- The rows of the user. -/
def attrsOf (w : World) (user : User) : List UserAttrValueEntity :=
  (w.db .userAttrValues).filter fun a => a.userId == user.id

theorem StoresAttrs.jsonOf_iff (h : StoresAttrs w user) {json : String} :
    jsonOf data (attrsOf w user) name = some json ↔ HasAttr data w user name json := by
  have hrow : ∀ a, a ∈ attrsOf w user ↔ a ∈ w.db .userAttrValues ∧ a.userId = user.id := by
    intro a
    rw [attrsOf, List.mem_filter, beq_iff_eq]
  rw [jsonOf, lookupAttr]
  constructor
  · intro hjson
    obtain ⟨value, hvalue, hjson⟩ := Option.bind_eq_some_iff.mp hjson
    obtain ⟨a, hfind, rfl⟩ := Option.map_eq_some_iff.mp hvalue
    have hmem := (hrow a).mp (List.mem_reverse.mp (List.mem_of_find?_eq_some hfind))
    have hkey := List.find?_some hfind
    exact ⟨a, hmem.1, hmem.2, beq_iff_eq.mp hkey, hjson⟩
  · rintro ⟨a, ha, huser, hkey, hjson⟩
    have hmem : a ∈ (attrsOf w user).reverse := List.mem_reverse.mpr ((hrow a).mpr ⟨ha, huser⟩)
    rcases hfind : (attrsOf w user).reverse.find? (·.key == name) with - | b
    · have hnone := List.find?_eq_none.mp hfind a hmem
      rw [hkey, beq_self_eq_true] at hnone
      exact absurd rfl hnone
    · -- the two rows have the same primary key
      have hb := (hrow b).mp (List.mem_reverse.mp (List.mem_of_find?_eq_some hfind))
      have hkey' := List.find?_some hfind
      have hbkey : b.key = name := beq_iff_eq.mp hkey'
      have hsame : sameKey .userAttrValues a b = true := by
        rw [sameKey, huser, hb.2, hkey, hbkey, beq_self_eq_true, beq_self_eq_true]
        rfl
      rw [hfind, ← h.unique a ha b hb.1 hsame]
      exact hjson

/-- The custom scopes of a token are those that map something into it. -/
def Selected (w : World) (user : User) (scope : String) (field : Scope → Option String) :
    Option ScopeCustoms → Prop
  | none => ∀ s ∈ w.db .scopes, s.name ∈ Scope.extractCustom scope → field s = none
  | some (cust, attrs) =>
      (∀ s, s ∈ cust ↔ s ∈ w.db .scopes ∧ s.name ∈ Scope.extractCustom scope ∧
        (field s).isSome = true) ∧
      attrs = some (attrsOf w user)

theorem mem_extractCustom : name ∈ Scope.extractCustom scope ↔
    name ∈ Text.split ' ' scope ∧ name ∉ ["openid", "profile", "email", "groups"] := by
  rw [Scope.extractCustom, List.mem_filter]
  simp [Scope.isCustom, and_assoc]

theorem mem_names {cust : List Scope}
    (h : ∀ s, s ∈ cust ↔ s ∈ w.db .scopes ∧ s.name ∈ Scope.extractCustom scope ∧
      (field s).isSome = true) :
    name ∈ ((cust.map field).filterMap id).flatMap (Text.split ',') ↔
      Mapped w scope field name := by
  rw [List.mem_flatMap]
  constructor
  · rintro ⟨csv, hcsv, hname⟩
    obtain ⟨o, ho, rfl⟩ := List.mem_filterMap.mp hcsv
    obtain ⟨s, hs, hfield⟩ := List.mem_map.mp ho
    obtain ⟨hrow, hcustom, -⟩ := (h s).mp hs
    obtain ⟨hsplit, hdefault⟩ := mem_extractCustom.mp hcustom
    exact ⟨s, hrow, hsplit, hdefault, csv, hfield, hname⟩
  · rintro ⟨s, hrow, hsplit, hdefault, csv, hcsv, hname⟩
    have hcustom := mem_extractCustom.mpr ⟨hsplit, hdefault⟩
    refine ⟨csv, List.mem_filterMap.mpr ⟨field s, List.mem_map_of_mem ?_, hcsv⟩, hname⟩
    exact (h s).mpr ⟨hrow, hcustom, by rw [hcsv]; rfl⟩

/-- **The custom claims of one token.** -/
theorem StoresAttrs.customsExact (h : StoresAttrs w user) {S : Type}
    {step : (o : Op) → S → o.Res → S → Prop} {s s' : S} {customs : Option ScopeCustoms}
    (hsel : Selected w user scope field customs) {custom : Option (List (String × String))}
    (hx : Exec step (customClaims data field customs) s (.ok custom) s') :
    CustomsExact data w user scope field custom := by
  rcases customs with - | ⟨cust, attrs⟩
  · obtain ⟨hret, -⟩ := exec_ret.mp hx
    cases hret
    refine ⟨fun name json => ⟨fun h => absurd h List.not_mem_nil, ?_⟩, List.nodup_nil,
      fun h => by cases h⟩
    rintro ⟨⟨s, hrow, hsplit, hdefault, csv, hcsv, -⟩, -⟩
    rw [hsel s hrow (mem_extractCustom.mpr ⟨hsplit, hdefault⟩)] at hcsv
    cases hcsv
  · obtain ⟨hcust, rfl⟩ := hsel
    obtain ⟨attrs, s₁, hunwrap, hscope⟩ := exec_bind_ok.mp hx
    obtain ⟨hattrs, rfl⟩ := exec_unwrap.mp hunwrap
    obtain ⟨attr, s₂, hloop, hret⟩ := exec_bind_ok.mp hscope
    obtain ⟨hcustom, -⟩ := exec_ret.mp hret
    cases hattrs
    obtain ⟨hpairs, hkeys⟩ := exec_customAttrs hloop (fun _ _ h => absurd h List.not_mem_nil)
      List.nodup_nil
    have hcustom := Except.ok.inj hcustom
    have hgetD : custom.getD [] = attr := by
      rw [hcustom]
      split
      · next hempty => exact (List.isEmpty_iff.mp hempty).symm
      · rfl
    refine ⟨fun name json => ?_, hgetD ▸ hkeys, fun hnil => ?_⟩
    · rw [hgetD, hpairs, mem_names hcust, h.jsonOf_iff]
      exact or_iff_right List.not_mem_nil
    · rw [hcustom] at hnil
      split at hnil
      · cases hnil
      · next hne => exact hne (List.isEmpty_iff.mpr (Option.some.inj hnil))

theorem StoresAttrs.findAll (h : StoresAttrs w user) {scps : List Scope}
    (hx : Exec sem Scope.findAll w (.ok scps) w') :
    scps = w.db .scopes ∧ w'.db = w.db ∧ ∀ k, w'.cache .users k = w.cache .users k := by
  rcases exec_cached hx with ⟨v, hv, hscopes, rfl⟩ | ⟨w₁, w₂, hw, hload, rfl⟩
  · cases v <;> cases hscopes
    exact ⟨h.scopes _ hv, rfl, fun _ => rfl⟩
  · obtain ⟨hrows, rfl⟩ := exec_select.mp hload
    rw [List.filter_true] at hrows
    rcases hw with rfl | rfl
    · exact ⟨hrows, rfl, fun _ => rfl⟩
    · exact ⟨hrows, rfl, fun _ => rfl⟩

/-- The attributes of the user are what the read answers. -/
theorem StoresAttrs.findForUser (h : StoresAttrs w user) {attrs : List UserAttrValueEntity}
    (hdb : w'.db = w.db) (hcache : ∀ k, w'.cache .users k = w.cache .users k) {w₁ : World}
    (hx : Exec sem (UserAttrValueEntity.findForUser user.id) w' (.ok attrs) w₁) :
    attrs = attrsOf w user := by
  rcases exec_cached hx with ⟨v, hv, hattrs, -⟩ | ⟨w₂, w₃, hw, hload, -⟩
  · rw [hcache] at hv
    cases v <;> cases hattrs
    exact h.attrs _ hv
  · obtain ⟨hrows, -⟩ := exec_select.mp hload
    have hdb₂ : w₂.db = w.db := by
      rcases hw with rfl | rfl
      · exact hdb
      · exact hdb
    rw [hrows, hdb₂, attrsOf]

theorem selected_of_rows {attrs : Option (List UserAttrValueEntity)} {needed : Bool}
    (hattrs : needed = true → attrs = some (attrsOf w user))
    (hneeded : (((w.db .scopes).filter (·.name ∈ Scope.extractCustom scope)).filter
      fun s => (field s).isSome).isEmpty = false → needed = true) :
    Selected w user scope field
      (if (((w.db .scopes).filter (·.name ∈ Scope.extractCustom scope)).filter
        fun s => (field s).isSome).isEmpty then none
      else some (((w.db .scopes).filter (·.name ∈ Scope.extractCustom scope)).filter
        fun s => (field s).isSome, attrs)) := by
  split
  · next hempty =>
      intro s hrow hcustom
      rw [List.isEmpty_iff, List.filter_eq_nil_iff] at hempty
      have hnot := hempty s (List.mem_filter.mpr ⟨hrow, decide_eq_true hcustom⟩)
      exact Option.not_isSome_iff_eq_none.mp hnot
  · next hne =>
      refine ⟨fun s => ?_, hattrs (hneeded (Bool.eq_false_iff.mpr hne))⟩
      rw [List.mem_filter, List.mem_filter, decide_eq_true_iff, and_assoc]

/-- What is read for the two builders selects their custom scopes. -/
theorem StoresAttrs.customsOf (h : StoresAttrs w user) {access id : Option ScopeCustoms}
    (hx : Exec sem (TokenSet.customsOf user scope) w (.ok (access, id)) w') :
    Selected w user scope Scope.attrIncludeAccess access ∧
    Selected w user scope Scope.attrIncludeId id := by
  unfold TokenSet.customsOf at hx
  dsimp only at hx
  split at hx
  · next hempty =>
      obtain ⟨hret, -⟩ := exec_ret.mp hx
      cases hret
      rw [List.isEmpty_iff] at hempty
      refine ⟨fun s _ hs => ?_, fun s _ hs => ?_⟩
      · rw [hempty] at hs
        exact absurd hs List.not_mem_nil
      · rw [hempty] at hs
        exact absurd hs List.not_mem_nil
  obtain ⟨scps, w₁, hfind, hrest⟩ := exec_bind_ok.mp hx
  obtain ⟨rfl, hdb, hcache⟩ := h.findAll hfind
  obtain ⟨attrs, w₂, hread, hret⟩ := exec_bind_ok.mp hrest
  obtain ⟨hpair, -⟩ := exec_ret.mp hret
  cases hpair
  have hattrs : ∀ {b}, Exec sem (TokenSet.userAttrsFor user b) w₁ (.ok attrs) w₂ → b = true →
      attrs = some (attrsOf w user) := by
    rintro _ hread rfl
    obtain ⟨a, w₃, hrows, hsome, -⟩ := exec_bind_ok.mp hread
    cases hsome
    rw [h.findForUser hdb hcache hrows]
  refine ⟨selected_of_rows (hattrs hread) fun hne => ?_,
    selected_of_rows (hattrs hread) fun hne => ?_⟩
  · rw [hne]
    rfl
  · rw [hne]
    exact Bool.or_true _

end Exact

/-- **The custom claims of the tokens**: no builder finds the map of the attributes missing, and
each token contains the attributes that the granted scopes map into it. -/
theorem custom_claims_exact (data : AppState) (user : User) (client : Client)
    (fp nonce scopes : Option String) (acf : AuthCodeFlow) (dcf : DeviceCodeFlow) (w w' : World) :
    (∀ r, Exec sem (TokenSet.fromUser data user client fp nonce scopes acf dcf) w r w' →
      r ≠ .error attrsMissing) ∧
    ∀ ts, StoresAttrs w user →
      Exec sem (TokenSet.fromUser data user client fp nonce scopes acf dcf) w (.ok ts) w' →
      ∃ kp kp' access id idToken, data.signJwt kp (.access access) = .ok ts.accessToken ∧
        ts.idToken = some idToken ∧ data.signJwt kp' (.id id) = .ok idToken ∧
        CustomsExact data w user (scopes.getD (Text.replaceChar ',' ' ' client.defaultScopes))
          Scope.attrIncludeAccess access.custom.custom ∧
        CustomsExact data w user (scopes.getD (Text.replaceChar ',' ' ' client.defaultScopes))
          Scope.attrIncludeId id.custom.custom := by
  refine ⟨fun r hx hr => ?_, fun ts h hx => ?_⟩
  · have hpanic : "called `Option::unwrap()` on a `None` value" ∈ tokenPanics :=
      (unwraps_fromUser.exec hx).1 attrsMissing hr
    exact absurd hpanic (by decide)
  · obtain ⟨customs, customsId, lt, atHash, idToken, refreshToken, w₁, w₂, w₃, w₄, hcustoms, -,
      haccess, -, hid, -, hidToken, -⟩ := TokenSet.fromUser_built hx
    obtain ⟨hsel, hselId⟩ := h.customsOf hcustoms
    obtain ⟨access, _, _, hclaims, -, -, hsign⟩ := buildAccessToken_built haccess
    obtain ⟨id, _, _, _, _, _, _, -, -, hclaimsId, -, -, -, hsignId⟩ := buildIdToken_built hid
    obtain ⟨-, kp, -, -, htoken⟩ := signAccessToken_signed hsign
    obtain ⟨-, kp', -, -, htokenId⟩ := signIdToken_signed hsignId
    exact ⟨kp, kp', access, id, idToken, htoken, hidToken, htokenId,
      h.customsExact hsel hclaims, h.customsExact hselId hclaimsId⟩

/-- Alice works in a department, and a scope maps it into the access token. -/
def deptWorld : World where
  clock := 0
  issued := []
  db
    | .scopes => [{ id := "s", name := "dept", attrIncludeAccess := some "department",
                    attrIncludeId := none }]
    | .userAttrValues => [{ userId := "alice", key := "department", value := [] }]
    | _ => []
  cache
    | .c12hr, "jwk_latest_EdDSA" => some (.jwkKeyPair ⟨"kid", .edDSA, []⟩)
    | _, _ => none

def deptState : AppState := { sampleState with jsonFromSlice := fun _ => some "IT" }

theorem custom_claims_exact_dept : ∃ ts kp access,
    deptState.signJwt kp (.access access) = .ok (TokenSet.accessToken ts) ∧
    ("department", "IT") ∈ access.custom.custom.getD [] := by
  have hstores : StoresAttrs deptWorld sampleUser :=
    ⟨fun _ h => (by cases h), fun _ h => (by cases h), by decide⟩
  obtain ⟨r, w', hx, hr⟩ := Pool.exists_exec_of_choices Op.run (TokenSet.fromUser deptState
    sampleUser sampleClient none none (some "openid dept") .yes .no)
    [.ok, .ok, .ok, .ok, .ok, .ok, .time 0, .ok, .time 0, .time 0, .ok] deptWorld
    (fun r _ => r.isOk) (by decide +kernel)
  rcases r with e | ts
  · cases hr
  obtain ⟨kp, kp', access, id, idToken, hsign, -, -, haccess, -⟩ :=
    (custom_claims_exact deptState sampleUser sampleClient none none (some "openid dept") .yes .no
      deptWorld w').2 ts hstores hx
  refine ⟨ts, kp, access, hsign, (haccess.pairs _ _).mpr ⟨?_, ?_⟩⟩
  · exact ⟨_, List.mem_singleton_self _, by decide, by decide, "department", rfl, by decide⟩
  · exact ⟨_, List.mem_singleton_self _, rfl, rfl, rfl⟩

end Rauthy
