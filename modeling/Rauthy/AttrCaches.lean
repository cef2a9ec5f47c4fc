/-
Rauthy/AttrCaches.lean

The attributes of the users as they are served: the list of all of them and each one by its name
are cached, in entries of their own.

`create` reads the list after its insert and pushes the new attribute to it, so a list that was
read from the table has it twice.  `update` looks the attribute up, which caches it, and leaves
this entry behind.  The list itself is cached under the name of an attribute that may exist.

Main result: `attributes_served`.  After every history of creations that find the list in the
cache, of updates that change nothing and of deletions, lookups answer with the current rows.
-/
import Rauthy.Attributes

namespace Rauthy

open Prog

namespace UserAttrConfigEntity

/-- `UserAttrConfigEntity::create`: the list is read after the insert. -/
def create (newAttr : UserAttrConfigRequest) : M ErrorResponse UserAttrConfigEntity := do
  match ← attempt (find newAttr.name) with
  | .ok _ => fail (err .badRequest "User attribute config does already exist")
  | .error _ =>
      let slf : UserAttrConfigEntity := { name := newAttr.name, desc := newAttr.desc }
      execute [.insert .userAttrConfig slf]
      let attrs ← findAll
      cachePut .users "user_attrs_" (.userAttrs (attrs ++ [slf]))
      return slf

end UserAttrConfigEntity

open UserAttrConfigEntity

/-- The calls of a history. -/
inductive AttrCall where
  | create (req : UserAttrConfigRequest)
  | update (name : String) (req : UserAttrConfigRequest)
  | delete (name : String)
  | find (name : String)
  | findAll

namespace AttrCall

def prog : AttrCall → M ErrorResponse Unit
  | create req => do
      let _ ← UserAttrConfigEntity.create req
      return ()
  | update name req => do
      let _ ← UserAttrConfigEntity.update name req
      return ()
  | delete name => UserAttrConfigEntity.delete name
  | find name => do
      let _ ← UserAttrConfigEntity.find name
      return ()
  | findAll => do
      let _ ← UserAttrConfigEntity.findAll
      return ()

/-- The call is one that keeps the caches right, in the world before it: no attribute gets the name
under which the list is cached, and an update has the values that are there. -/
def Clean (w : World) : AttrCall → Prop
  | create req => req.name ≠ "user_attrs_"
  | update name req => ∀ a ∈ w.db .userAttrConfig, a.name = name → a = ⟨req.name, req.desc⟩
  | _ => True

/-- A creation finds the list in the cache: it was read before and has not expired. -/
def ListCached : AttrCall → (o : Op) → o.Res → Prop
  | create _, .cacheGet .users k, x => k = "user_attrs_" → ∃ v, x = .ok (some v)
  | _, _, _ => True

end AttrCall

/-- The world after calls that all satisfy `C` in the world before them, and whose operations
are answered as in `A`, from one where nothing about users is cached. -/
inductive AttrHistory (C : World → AttrCall → Prop) (A : AttrCall → (o : Op) → o.Res → Prop) :
    World → Prop
  | start {w : World} (hunique : UniqueKey UserAttrConfigEntity.name (w.db .userAttrConfig))
      (hname : ∀ a ∈ w.db .userAttrConfig, a.name ≠ "user_attrs_")
      (hempty : ∀ k, w.cache .users k = none) : AttrHistory C A w
  | step {w w' : World} {c : AttrCall} {r : Except (Fault ErrorResponse) Unit}
      (h : AttrHistory C A w) (hC : C w c) (hx : Exec (answering semUp (A c)) c.prog w r w') :
      AttrHistory C A w'

/-- The lookups answer with the rows of the table, whether they hit the cache or not. -/
structure AttrsServed (w : World) : Prop where
  unique : UniqueKey UserAttrConfigEntity.name (w.db .userAttrConfig)
  all : Outcomes semUp findAll w fun r _ => r = .ok (w.db .userAttrConfig)
  found : ∀ a ∈ w.db .userAttrConfig, Outcomes semUp (find a.name) w fun r _ => r = .ok a
  missing : ∀ name, (∀ a ∈ w.db .userAttrConfig, a.name ≠ name) →
    Outcomes semUp (find name) w fun r _ => ∃ e, r = .error (.err e)

/-! ### Entries -/

/-- The entry of the list, if there is one. -/
def ListedAs (rows : List UserAttrConfigEntity) (w : World) : Prop :=
  ∀ v, w.cache .users "user_attrs_" = some v → v = .userAttrs rows

/-- The other entries are rows under their names. -/
def EachCached (rows : List UserAttrConfigEntity) (w : World) : Prop :=
  ∀ k v, k ≠ "user_attrs_" → w.cache .users k = some v → ∃ a ∈ rows, a.name = k ∧ v = .userAttr a

/-- The entries are copies of the rows. -/
structure AttrsCached (rows : List UserAttrConfigEntity) (w : World) : Prop where
  unique : UniqueKey UserAttrConfigEntity.name rows
  names : ∀ a ∈ rows, a.name ≠ "user_attrs_"
  list : ListedAs rows w
  each : EachCached rows w

section Entries

variable {rows rows' : List UserAttrConfigEntity} {w w' : World} {ts : List Table}
  {cs : List (CacheName × Slot)}

theorem ListedAs.frame (h : ListedAs rows w) (hf : Frame ts cs w w') (hc : ∀ s, (.users, s) ∉ cs) :
    ListedAs rows w' := by
  intro v hv
  rcases hf.cache _ _ v hv with hv | hv
  · exact h v hv
  · exact absurd hv (hc _)

theorem EachCached.frame (h : EachCached rows w) (hf : Frame ts cs w w')
    (hc : ∀ s, (.users, s) ∉ cs) : EachCached rows w' := by
  intro k v hk hv
  rcases hf.cache _ _ v hv with hv | hv
  · exact h k v hk hv
  · exact absurd hv (hc _)

theorem AttrsCached.frame (h : AttrsCached rows w) (hf : Frame ts cs w w')
    (hc : ∀ s, (.users, s) ∉ cs) : AttrsCached rows w' :=
  ⟨h.unique, h.names, h.list.frame hf hc, h.each.frame hf hc⟩

theorem frame_of_missed {c : CacheName} {k : String} (h : w' = w ∨ w' = w.del c k) :
    Frame [] [] w w' := by
  rcases h with rfl | rfl
  · exact Frame.refl _ _ _
  · exact frame_del _ _ _ _ _

theorem ListedAs.put : ListedAs rows (w.put .users "user_attrs_" (.userAttrs rows)) := by
  intro v hv
  rw [World.put_cache, if_pos ⟨rfl, rfl⟩] at hv
  exact (Option.some.inj hv).symm

/-- The list is put, and the other entries are as before. -/
theorem EachCached.put_list (h : EachCached rows w) (v : CacheVal) :
    EachCached rows (w.put .users "user_attrs_" v) := by
  intro k v' hk hv
  rw [World.put_cache, if_neg (fun hand => hk hand.2)] at hv
  exact h k v' hk hv

theorem EachCached.mono (h : EachCached rows w) (hsub : ∀ a ∈ rows, a ∈ rows') :
    EachCached rows' w := by
  intro k v hk hv
  obtain ⟨a, ha, hname, hval⟩ := h k v hk hv
  exact ⟨a, hsub a ha, hname, hval⟩

end Entries

/-! ### Lookups -/

section Calls

variable {rows rows' : List UserAttrConfigEntity} {w w' : World}
  {req : UserAttrConfigRequest}

theorem findAll_touches : Touches [] [(.users, .userAttrs)] findAll :=
  touches_cached (touches_select _ _) (by simp [CacheVal.slot])

/-- One attribute: its row, or an error if there is none. -/
theorem AttrsCached.find (h : AttrsCached (w.db .userAttrConfig) w) (name : String) :
    Outcomes semUp (find name) w fun r w' => w'.db = w.db ∧ AttrsCached (w.db .userAttrConfig) w' ∧
      ((∃ a ∈ w.db .userAttrConfig, a.name = name ∧ r = .ok a) ∨
        (∀ a ∈ w.db .userAttrConfig, a.name ≠ name) ∧ ∃ e, r = .error (.err e)) := by
  refine outcomes_bind (answered_cacheGet_any (fun v a hv ha => ?_) (fun v hv hn => ?_)
    fun w₁ hw₁ => ?_)
  · -- a hit
    by_cases hk : name = "user_attrs_"
    · subst hk
      rw [h.list v hv] at ha
      cases ha
    · obtain ⟨b, hb, hname, hval⟩ := h.each name v hk hv
      rw [hval] at ha
      cases ha
      exact outcomes_ret ⟨rfl, h, .inl ⟨a, hb, hname, rfl⟩⟩
  · -- only the list is of another type, and no attribute has its name
    by_cases hk : name = "user_attrs_"
    · subst hk
      exact ⟨rfl, h, .inr ⟨h.names, _, rfl⟩⟩
    · obtain ⟨b, -, -, rfl⟩ := h.each name v hk hv
      cases hn
  · have hdb : w₁.db = w.db := by rcases hw₁ with rfl | rfl <;> rfl
    have h₁ : AttrsCached (w.db .userAttrConfig) w₁ := h.frame (frame_of_missed hw₁) (by simp)
    refine outcomes_bind (answered_fetchOne (fun a ha => ?_) fun hnone => ?_)
    · rw [hdb] at ha
      obtain ⟨hmem, hname⟩ := List.mem_filter.mp (List.mem_of_head? ha)
      have hname : a.name = name := eq_of_beq hname
      refine outcomes_bind (answered_cachePut (outcomes_ret ⟨hdb, ?_, .inl ⟨a, hmem, hname, rfl⟩⟩))
      have hne : name ≠ "user_attrs_" := hname ▸ h.names a hmem
      refine ⟨h.unique, h.names, fun v hv => ?_, fun k v hk hv => ?_⟩
      · rw [World.put_cache, if_neg (fun hand => hne hand.2.symm)] at hv
        exact h₁.list v hv
      · rw [World.put_cache] at hv
        split at hv
        · next hand =>
            cases hv
            exact ⟨a, hmem, hname.trans hand.2.symm, rfl⟩
        · exact h₁.each k v hk hv
    · refine ⟨hdb, h₁, .inr ⟨fun a ha hname => ?_, _, rfl⟩⟩
      rw [hdb, List.head?_eq_none_iff, List.filter_eq_nil_iff] at hnone
      exact hnone a ha (beq_of_eq hname)

/-- The list: the one of the cache or the one of the table. -/
theorem outcomes_findAll (hlist : ListedAs rows w) (heach : EachCached rows' w) :
    Outcomes semUp findAll w fun r w' => w'.db = w.db ∧ EachCached rows' w' ∧
      ∃ attrs, r = .ok attrs ∧ (attrs = rows ∨ attrs = w.db .userAttrConfig) ∧ ListedAs attrs w' := by
  refine answered_cached (fun v hv => ?_) fun w₁ hw₁ => answered_select ?_
  · rw [hlist v hv]
    exact ⟨rows, rfl, rfl, heach, rows, rfl, .inl rfl, hlist⟩
  · have hdb : w₁.db = w.db := by rcases hw₁ with rfl | rfl <;> rfl
    rw [hdb, List.filter_true]
    exact ⟨hdb, (heach.frame (frame_of_missed hw₁) (by simp)).put_list _, _, rfl, .inr rfl,
      ListedAs.put⟩

theorem AttrsCached.findAll (h : AttrsCached (w.db .userAttrConfig) w) :
    Outcomes semUp findAll w fun r w' => w'.db = w.db ∧ AttrsCached (w.db .userAttrConfig) w' ∧
      r = .ok (w.db .userAttrConfig) := by
  refine outcomes_mono (outcomes_findAll h.list h.each) fun r w' hr => ?_
  obtain ⟨hdb, heach, attrs, rfl, hattrs, hlist⟩ := hr
  have hattrs : attrs = w.db .userAttrConfig := by rcases hattrs with hattrs | hattrs <;> exact hattrs
  subst hattrs
  exact ⟨hdb, ⟨h.unique, h.names, hlist, heach⟩, rfl⟩

theorem AttrsCached.served (h : AttrsCached (w.db .userAttrConfig) w) : AttrsServed w where
  unique := h.unique
  all := outcomes_mono h.findAll fun _ _ hr => hr.2.2
  found a ha := by
    refine outcomes_mono (h.find a.name) fun r w' hr => ?_
    obtain ⟨-, -, ⟨b, hb, hname, rfl⟩ | ⟨hnone, -⟩⟩ := hr
    · rw [h.unique.inj hb ha hname]
    · exact absurd rfl (hnone a ha)
  missing name hnone := by
    refine outcomes_mono (h.find name) fun r w' hr => ?_
    obtain ⟨-, -, ⟨b, hb, hname, -⟩ | ⟨-, he⟩⟩ := hr
    · exact absurd hname (hnone b hb)
    · exact he

/-! ### Changes -/

theorem AttrsCached.create (h : AttrsCached (w.db .userAttrConfig) w)
    (hne : req.name ≠ "user_attrs_") :
    Outcomes (answering semUp (AttrCall.create req).ListCached) (create req) w
      fun _ w' => AttrsCached (w'.db .userAttrConfig) w' := by
  have hup : ∀ {α : Type} {p : M ErrorResponse α} {w : World}
      {Q : Except (Fault ErrorResponse) α → World → Prop}, Outcomes semUp p w Q →
      Outcomes (answering semUp (AttrCall.create req).ListCached) p w Q :=
    fun hp r w' hx => hp r w' hx.of_answering
  refine outcomes_bind (outcomes_tried (outcomes_mono (hup (h.find req.name)) fun r w₁ hr => ?_))
  obtain ⟨hdb, h₁, ⟨a, -, -, rfl⟩ | ⟨hnew, e, rfl⟩⟩ := hr
  · exact outcomes_fail (hdb ▸ h₁)
  refine outcomes_bind (hup (answered_execute fun db hins => ?_))
  have hrows : db .userAttrConfig = w.db .userAttrConfig ++ [⟨req.name, req.desc⟩] := by
    rw [applyAll, DbWrite.apply] at hins
    split at hins
    · cases hins
    · cases hins
      rw [Function.update_self, hdb]
  -- the list is the one of before the insert
  refine outcomes_bind (outcomes_bind (outcomes_bind (outcomes_call fun x w₂ hx => ?_)))
  obtain ⟨⟨hsem, -⟩, hcached⟩ := hx
  obtain ⟨v, rfl⟩ := hcached rfl
  rcases sem_cacheGet.mp hsem with ⟨hval, rfl⟩ | ⟨hval, -⟩ | ⟨e, hval, -⟩
  · have hlist : v = .userAttrs (w.db .userAttrConfig) := h₁.list v (Except.ok.inj hval).symm
    subst hlist
    refine outcomes_ret (outcomes_ret (outcomes_ret ?_))
    refine outcomes_bind (hup (answered_cachePut (outcomes_ret ?_)))
    show AttrsCached (db .userAttrConfig) (World.put _ _ _ _)
    rw [hrows]
    refine ⟨h.unique.append hnew, fun a ha => ?_, ListedAs.put, ?_⟩
    · rcases List.mem_append.mp ha with ha | ha
      · exact h.names a ha
      · rw [List.mem_singleton.mp ha]
        exact hne
    · have hold : EachCached (w.db .userAttrConfig) { w₁ with db } := h₁.each
      exact (hold.mono fun a ha => List.mem_append_left _ ha).put_list _
  · cases hval
  · cases hval

theorem AttrsCached.update (h : AttrsCached (w.db .userAttrConfig) w) {name : String}
    (hsame : ∀ a ∈ w.db .userAttrConfig, a.name = name → a = ⟨req.name, req.desc⟩) :
    Outcomes semUp (update name req) w fun _ w' => AttrsCached (w'.db .userAttrConfig) w' := by
  refine outcomes_bind (outcomes_mono (h.find name) fun r w₁ hr => ?_)
  obtain ⟨hdb, h₁, ⟨a, ha, hname, rfl⟩ | ⟨-, e, rfl⟩⟩ := hr
  · have heq : name = req.name := by rw [← hname, hsame a ha hname]
    have hrows : (w.db .userAttrConfig).map (fun a => if a.name = name then ⟨req.name, req.desc⟩ else a) =
        w.db .userAttrConfig := by
      rw [List.map_congr_left (g := id) fun b hb => ?_, List.map_id]
      show (if b.name = name then _ else b) = b
      split
      · next hb' => exact (hsame b hb hb').symm
      · rfl
    have hbegin : ∀ db, applyAll [] w₁.db = some db → db = w.db := fun db h => by cases h; exact hdb
    unfold valueOwners editRenamed
    rw [if_pos heq, if_pos heq]
    refine outcomes_bind (outcomes_ret (outcomes_bind (answered_execute fun db₁ hdb₁ => ?_)))
    obtain rfl := hbegin db₁ hdb₁
    refine outcomes_bind (answered_execute fun db₂ hdb₂ => ?_)
    cases hdb₂
    refine outcomes_bind (outcomes_ret (outcomes_bind (answered_execute fun db₃ hdb₃ => ?_)))
    have hdb₃ : db₃ .userAttrConfig = w.db .userAttrConfig := by
      cases hdb₃
      rw [Function.update_of_ne (by decide), Function.update_self]
      simpa only [beq_iff_eq] using hrows
    have h₃ : AttrsCached (w.db .userAttrConfig) { w₁ with db := db₃ } :=
      ⟨h₁.unique, h₁.names, h₁.list, h₁.each⟩
    refine outcomes_bind (outcomes_mono (outcomes_findAll h₃.list h₃.each) fun r w₄ hr => ?_)
    obtain ⟨hdb₄, heach, attrs, rfl, hattrs, -⟩ := hr
    have hattrs : attrs = w.db .userAttrConfig := by
      rcases hattrs with hattrs | hattrs
      · exact hattrs
      · exact hattrs.trans hdb₃
    refine outcomes_bind (answered_cachePut (outcomes_bind (outcomes_ret (outcomes_ret ?_))))
    rw [World.put_db, hdb₄, hattrs, hrows]
    show AttrsCached (db₃ .userAttrConfig) _
    rw [hdb₃]
    exact ⟨h.unique, h.names, ListedAs.put, heach.put_list _⟩
  · exact hdb ▸ h₁

theorem touches_editMappings (name : String) (edit : String → Option String) (ss : List Scope) :
    Touches [] [(.c12hr, .scopes)] (Scope.editMappings name edit ss) := by
  induction ss with
  | nil => exact touches_ret _
  | cons s ss ih =>
      unfold Scope.editMappings
      split
      · refine touches_bind ?_ fun _ => touches_bind ih fun _ => touches_ret _
        refine touches_bind (touches_execute (by simp)) fun _ => touches_bind ?_ fun _ => touches_ret _
        exact scopeListing.storeUpdated_touches (fun _ => rfl) _ _
      · exact ih

theorem outcomes_editMappings (name : String) (edit : String → Option String) (ss : List Scope) :
    Outcomes semUp (Scope.editMappings name edit ss) w fun r w' =>
      Frame [] [(.c12hr, .scopes)] w w' ∧
      ∀ stmts, r = .ok stmts → ∀ s ∈ stmts, s.table = .scopes := by
  intro r w' hx
  refine ⟨(touches_editMappings name edit ss).frame hx.of_answering, ?_⟩
  rintro stmts rfl s hs
  obtain ⟨-, hstmts⟩ := Scope.editMappings_ok hx.of_answering
  rw [hstmts] at hs
  obtain ⟨s', -, rfl⟩ := List.mem_map.mp hs
  rfl

theorem touches_deleteAllByKey (key : String) : Touches [] [] (deleteAllByKey key) := by
  refine touches_bind (touches_select _ _) fun rows => touches_bind ?_ fun _ => ?_
  · exact within_forEach fun _ _ => touches_cacheDel _ _
  · exact touches_bind (touches_execute (by simp)) fun _ => touches_ret _

theorem outcomes_deleteAllByKey (key : String) :
    Outcomes semUp (deleteAllByKey key) w fun r w' => Frame [] [] w w' ∧
      ∀ stmt, r = .ok stmt → stmt.table = .userAttrValues := by
  intro r w' hx
  refine ⟨(touches_deleteAllByKey key).frame hx.of_answering, ?_⟩
  rintro stmt rfl
  obtain ⟨_, _, -, h₁⟩ := exec_bind_ok.mp hx
  obtain ⟨_, _, -, h₂⟩ := exec_bind_ok.mp h₁
  obtain ⟨_, _, -, hret, -⟩ := exec_bind_ok.mp h₂
  cases hret
  rfl

/-- A deletion: its own entry goes before the row, and the list after it. -/
theorem AttrsCached.delete (h : AttrsCached (w.db .userAttrConfig) w) (name : String) :
    Outcomes semUp (delete name) w fun _ w' => AttrsCached (w'.db .userAttrConfig) w' := by
  -- up to the commit the rows are the same
  have hsame : ∀ {w₁ w₂ : World} {cs : List (CacheName × Slot)},
      w₁.db .userAttrConfig = w.db .userAttrConfig ∧ AttrsCached (w.db .userAttrConfig) w₁ →
      Frame [] cs w₁ w₂ → (∀ s, (.users, s) ∉ cs) →
      w₂.db .userAttrConfig = w.db .userAttrConfig ∧ AttrsCached (w.db .userAttrConfig) w₂ :=
    fun h₁ hf hc => ⟨(hf.db _ (by simp)).trans h₁.1, h₁.2.frame hf hc⟩
  have hstop : ∀ {w₁ : World}, w₁.db .userAttrConfig = w.db .userAttrConfig ∧
      AttrsCached (w.db .userAttrConfig) w₁ → AttrsCached (w₁.db .userAttrConfig) w₁ :=
    fun h₁ => h₁.1 ▸ h₁.2
  have hbegin : ∀ {w₁ : World} {db : Db}, applyAll [] w₁.db = some db → { w₁ with db } = w₁ :=
    fun hdb => by cases hdb; rfl
  refine outcomes_bind (outcomes_mono (h.find name) fun r w₁ hr => ?_)
  obtain ⟨hdb, h₁, hfound⟩ := hr
  have h₁ : w₁.db .userAttrConfig = w.db .userAttrConfig ∧ AttrsCached (w.db .userAttrConfig) w₁ :=
    ⟨congrFun hdb _, h₁⟩
  rcases hfound with ⟨a, -, -, rfl⟩ | ⟨-, e, rfl⟩
  swap
  · exact hstop h₁
  refine outcomes_bind (answered_execute fun db hdb => ?_)
  rw [hbegin hdb]
  have hscopes : Outcomes semUp Scope.findAll w₁ fun _ w₂ => Frame [] [(.c12hr, .scopes)] w₁ w₂ :=
    fun _ _ hx => Scope.findAll_touches.frame hx.of_answering
  refine outcomes_bind (outcomes_mono hscopes fun r w₂ hf => ?_)
  have h₂ := hsame h₁ hf (by simp)
  rcases r with e | scopes
  · exact hstop h₂
  refine outcomes_bind (outcomes_mono (outcomes_editMappings _ _ _) fun r w₃ hr => ?_)
  obtain ⟨hf, hstmts⟩ := hr
  have h₃ := hsame h₂ hf (by simp)
  rcases r with e | stmts
  · exact hstop h₃
  refine outcomes_bind (answered_cacheDel (outcomes_bind ?_))
  have h₄ := hsame h₃ (frame_del [] [] w₃ .users name) (by simp)
  have hgone : (w₃.del .users name).cache .users name = none := if_pos ⟨rfl, rfl⟩
  refine outcomes_mono (outcomes_deleteAllByKey name) fun r w₅ hr => ?_
  obtain ⟨hf₅, hstmt⟩ := hr
  have h₅ := hsame h₄ hf₅ (by simp)
  rcases r with e | stmt
  · exact hstop h₅
  have hgone : w₅.cache .users name = none := by
    rw [Option.eq_none_iff_forall_ne_some]
    intro v hv
    rcases hf₅.cache _ _ v hv with hv | hv
    · rw [hgone] at hv
      cases hv
    · exact absurd hv (List.not_mem_nil)
  refine outcomes_bind (answered_execute fun db hdb => ?_)
  rw [hbegin hdb]
  refine outcomes_bind (answered_execute fun db hdb => ?_)
  have hrows : db .userAttrConfig = (w.db .userAttrConfig).filter fun a => a.name != name := by
    rw [applyAll_append] at hdb
    obtain ⟨db₁, hfirst, hdb⟩ := Option.bind_eq_some_iff.mp hdb
    obtain ⟨db₂, hvalues, hdb⟩ := Option.bind_eq_some_iff.mp hdb
    cases hdb
    have h₁ : db₁ .userAttrConfig = w₅.db .userAttrConfig :=
      applyAll_frame hfirst fun s hs => by rw [hstmts stmts rfl s hs]; decide
    have h₂ : db₂ .userAttrConfig = db₁ .userAttrConfig :=
      DbWrite.apply_frame hvalues (by rw [hstmt stmt rfl]; decide)
    rw [Function.update_self, h₂, h₁, h₅.1]
    rfl
  have heach : EachCached (db .userAttrConfig) w₅ := by
    intro k v hk hv
    obtain ⟨a, ha, hname, hval⟩ := h₅.2.each k v hk hv
    refine ⟨a, ?_, hname, hval⟩
    rw [hrows, List.mem_filter, bne_iff_ne]
    refine ⟨ha, fun he => ?_⟩
    rw [← hname, he, hgone] at hv
    cases hv
  refine outcomes_bind (outcomes_mono (outcomes_findAll (w := { w₅ with db }) h₅.2.list heach)
    fun r w₆ hr => ?_)
  obtain ⟨hdb₆, heach, attrs, rfl, hattrs, -⟩ := hr
  have hattrs : (attrs.filter fun a => a.name != name) = db .userAttrConfig := by
    rcases hattrs with rfl | rfl
    · exact hrows.symm
    · show (db .userAttrConfig).filter _ = _
      rw [hrows, List.filter_filter]
      simp only [Bool.and_self]
  refine answered_cachePut ?_
  rw [World.put_db, hdb₆, hattrs]
  have hsub : (db .userAttrConfig).Sublist (w.db .userAttrConfig) := by
    rw [hrows]
    exact List.filter_sublist
  exact ⟨h.unique.sublist hsub, fun a ha => h.names a (hsub.mem ha), ListedAs.put, heach.put_list _⟩

theorem AttrsCached.step (h : AttrsCached (w.db .userAttrConfig) w) {c : AttrCall}
    (hc : c.Clean w) {r : Except (Fault ErrorResponse) Unit}
    (hx : Exec (answering semUp c.ListCached) c.prog w r w') :
    AttrsCached (w'.db .userAttrConfig) w' := by
  have hlook : ∀ {α : Type} {p : M ErrorResponse α}, (Outcomes semUp p w fun _ w' =>
      AttrsCached (w'.db .userAttrConfig) w') →
      Outcomes semUp (do let _ ← p; return () : M ErrorResponse Unit) w fun _ w' =>
        AttrsCached (w'.db .userAttrConfig) w' := by
    intro α p hp
    refine outcomes_bind (outcomes_mono hp fun r w₁ hr => ?_)
    rcases r with e | a
    · exact hr
    · exact outcomes_ret hr
  cases c with
  | create req =>
      have hcreate : Outcomes (answering semUp (AttrCall.create req).ListCached)
          (AttrCall.create req).prog w fun _ w' => AttrsCached (w'.db .userAttrConfig) w' := by
        refine outcomes_bind (outcomes_mono (h.create hc) fun r w₁ hr => ?_)
        rcases r with e | a
        · exact hr
        · exact outcomes_ret hr
      exact hcreate r w' hx
  | update name req => exact hlook (h.update hc) r w' hx.of_answering
  | delete name => exact h.delete name r w' hx.of_answering
  | find name =>
      refine hlook (outcomes_mono (h.find name) fun r w₁ hr => ?_) r w' hx.of_answering
      rw [hr.1]
      exact hr.2.1
  | findAll =>
      refine hlook (outcomes_mono h.findAll fun r w₁ hr => ?_) r w' hx.of_answering
      rw [hr.1]
      exact hr.2.1

theorem AttrHistory.cached (h : AttrHistory (fun w c => c.Clean w) AttrCall.ListCached w) :
    AttrsCached (w.db .userAttrConfig) w := by
  induction h with
  | start hunique hname hempty =>
      refine ⟨hunique, hname, fun v hv => ?_, fun k v _ hv => ?_⟩
      · rw [hempty] at hv
        cases hv
      · rw [hempty] at hv
        cases hv
  | step h hC hx ih => exact ih.step hC hx

end Calls

/-- **After every history of clean calls**, in which creations find the list in the cache, lookups
answer with the current rows. -/
theorem attributes_served {w : World}
    (h : AttrHistory (fun w c => c.Clean w) AttrCall.ListCached w) : AttrsServed w :=
  h.cached.served

/-- A table of attributes, and nothing cached. -/
def attrsWorld (rows : List UserAttrConfigEntity) : World where
  clock := 0
  issued := []
  db
    | .userAttrConfig => rows
    | _ => []
  cache _ _ := none

/-- A read of the list hits the cache. -/
def listHit : (o : Op) → o.Res → Bool
  | .cacheGet .users k, x => k != "user_attrs_" || x.toOption.join.isSome
  | _, _ => true

theorem listCached_of_listHit {req : UserAttrConfigRequest} {o : Op} {x : o.Res}
    (h : listHit o x = true) : (AttrCall.create req).ListCached o x := by
  unfold AttrCall.ListCached
  split
  next k x _ =>
    rintro rfl
    rcases x with e | (- | v)
    · cases h
    · cases h
    · exact ⟨v, rfl⟩
  · trivial

/-- An update with the values that are there, and a deletion. -/
def officeKept (w : World) : Bool :=
  decide (∀ a ∈ w.db .userAttrConfig, a.name = "office" → a = ⟨"office", none⟩) &&
    (Pool.runWith Op.runUp (Bind.bind (AttrCall.update "office" ⟨"office", none⟩).prog
        fun _ => (AttrCall.delete "department").prog) (List.replicate 40 .ok) w).any fun x =>
      x.1.isOk && x.2.db .userAttrConfig == [⟨"office", none⟩]

/-- A creation that finds the list in the cache, before `officeKept`. -/
def officeCreated (w : World) : Bool :=
  (Pool.runWith (fun c o w => (Op.runUp c o w).filter fun x => listHit o x.1)
    (AttrCall.create ⟨"office", none⟩).prog (List.replicate 40 .ok) w).any fun x => officeKept x.2

/-- The list is read, an attribute is created and updated with its own values, and another one is
deleted. -/
theorem attributes_served_deleted : ∃ w,
    AttrHistory (fun w c => c.Clean w) AttrCall.ListCached w ∧
      w.db .userAttrConfig = [⟨"office", none⟩] ∧ AttrsServed w := by
  have hstart : AttrHistory (fun w c => c.Clean w) AttrCall.ListCached
      (attrsWorld [⟨"department", none⟩]) := by
    refine .start (List.nodup_singleton _) (fun a ha => ?_) fun _ => rfl
    rw [List.mem_singleton.mp ha]
    decide
  obtain ⟨_, w₁, hlist, hcreated⟩ := exists_exec_semUp AttrCall.findAll.prog [.miss, .ok, .ok]
    (attrsWorld [⟨"department", none⟩]) (fun _ w => officeCreated w) (by decide +kernel)
  have h₁ := hstart.step (c := .findAll) trivial (hlist.mono fun _ _ _ _ hs => ⟨hs, trivial⟩)
  obtain ⟨_, w₂, hcreate, hkept⟩ := Pool.exists_exec_of_choices _ _ _ _ (fun _ w => officeKept w)
    hcreated
  have h₂ := h₁.step (c := .create ⟨"office", none⟩) (show "office" ≠ "user_attrs_" by decide)
    (hcreate.mono fun o w x w' ⟨c, hc⟩ => by
      obtain ⟨hrun, hhit⟩ := Option.filter_eq_some_iff.mp hc
      exact ⟨semUp_of_runUp ⟨c, hrun⟩, listCached_of_listHit hhit⟩)
  obtain ⟨hsame, hrun⟩ := Bool.and_eq_true_iff.mp hkept
  obtain ⟨r, w, hx, hr⟩ := exists_exec_semUp _ _ _ (fun r w => r.isOk &&
    w.db .userAttrConfig == [⟨"office", none⟩]) hrun
  obtain ⟨hok, hrows⟩ := Bool.and_eq_true_iff.mp hr
  rcases r with e | ⟨⟩
  · cases hok
  obtain ⟨_, w₃, hupdate, hdelete⟩ := exec_bind_ok.mp hx
  have h₃ := h₂.step (c := .update "office" ⟨"office", none⟩)
    (show ∀ a ∈ w₂.db .userAttrConfig, _ from of_decide_eq_true hsame)
    (hupdate.mono fun _ _ _ _ hs => ⟨hs, trivial⟩)
  have h₄ := h₃.step (c := .delete "department") trivial
    (hdelete.mono fun _ _ _ _ hs => ⟨hs, trivial⟩)
  exact ⟨w, h₄, beq_iff_eq.mp hrows, attributes_served h₄⟩

/-- An attribute that is created while the list is not cached is listed twice. -/
theorem created_attribute_twice :
    ¬ ∀ w : World, AttrHistory (fun _ _ => True) (fun _ _ _ => True) w → AttrsServed w := by
  intro hall
  obtain ⟨r, w', hx, hr⟩ := exists_exec_semUp
    (Bind.bind (AttrCall.create ⟨"department", none⟩).prog fun _ => findAll)
    [.miss, .ok, .ok, .miss, .ok, .ok, .ok, .ok] (attrsWorld [])
    (fun r w => r.toOption.any (·.length == 2) &&
      decide (w.db .userAttrConfig = [⟨"department", none⟩]))
    (by decide +kernel)
  obtain ⟨hread, hdb⟩ := Bool.and_eq_true_iff.mp hr
  rcases r with e | attrs
  · cases hread
  obtain ⟨_, w, hcreate, hlist⟩ := exec_bind_ok.mp hx
  have hstart : AttrHistory (fun _ _ => True) (fun _ _ _ => True) (attrsWorld []) :=
    .start List.nodup_nil (fun _ h => by cases h) fun _ => rfl
  have hserved := hall w (hstart.step (c := .create ⟨"department", none⟩) trivial
    (hcreate.mono fun _ _ _ _ hs => ⟨hs, trivial⟩))
  have hrows : w'.db = w.db := db_of_touches findAll_touches hlist.of_answering
  rw [Except.ok.inj (hserved.all _ _ hlist), ← hrows, of_decide_eq_true hdb] at hread
  cases hread

end Rauthy
