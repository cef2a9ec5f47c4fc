/-
Rauthy/Pointwise.lean

Invariants about one value at a time.  A `Typing` says what every row of a table and every entry
of a cache has to satisfy; it holds in a world if all of them do.  A program that writes such
values only keeps it in every interleaving, and what it reads are such values.

Main results: `keeps_of_typed` and the rules for the calls; `Typing.ForUsers` and the rules for
the operations that find and save users.
-/
import Rauthy.Webauthn

namespace Rauthy

open Prog

structure Typing where
  row : (t : Table) → Row t → Prop
  entry : CacheName → String → CacheVal → Prop

/-- All rows and all entries are as the typing says. -/
structure Typing.Holds (T : Typing) (w : World) : Prop where
  rows : ∀ t, ∀ r ∈ w.db t, T.row t r
  entries : ∀ c k v, w.cache c k = some v → T.entry c k v

/-- The statement writes rows of the typing, given that there are no others. -/
def DbWrite.Typed (T : Typing) : DbWrite → Prop
  | .insert t r => T.row t r
  | .upsert t r => T.row t r
  | .update t p f => ∀ r, T.row t r → p r = true → T.row t (f r)
  | .delete _ _ => True
  | .cascade _ _ => True

def Op.Typed (T : Typing) : Op → Prop
  | .execute ss => ∀ s ∈ ss, s.Typed T
  | .cachePut c k v => T.entry c k v
  | _ => True

/-! ### One step -/

section Step

variable {T : Typing} {w w' : World} {ss : List DbWrite} {db db' : Db}

theorem DbWrite.Typed.apply {s : DbWrite} (hs : s.Typed T) (hdb : ∀ t, ∀ r ∈ db t, T.row t r)
    (h : s.apply db = some db') : ∀ t, ∀ r ∈ db' t, T.row t r := by
  -- the rows of the table that the statement is about
  have htable : ∀ r ∈ db' s.table, T.row s.table r := by
    cases s with
    | insert t r =>
        simp only [DbWrite.apply] at h
        split at h
        · cases h
        · cases h
          intro r' hr'
          replace hr' : r' ∈ Function.update db t _ t := hr'
          rw [Function.update_self] at hr'
          rcases List.mem_append.mp hr' with hr' | hr'
          · exact hdb t r' hr'
          · rw [List.mem_singleton.mp hr']
            exact hs
    | upsert t r =>
        cases h
        intro r' hr'
        replace hr' : r' ∈ Function.update db t _ t := hr'
        rw [Function.update_self] at hr'
        rcases List.mem_append.mp hr' with hr' | hr'
        · exact hdb t r' (List.mem_filter.mp hr').1
        · rw [List.mem_singleton.mp hr']
          exact hs
    | update t p f =>
        cases h
        intro r' hr'
        replace hr' : r' ∈ Function.update db t _ t := hr'
        rw [Function.update_self] at hr'
        obtain ⟨r, hr, rfl⟩ := List.mem_map.mp hr'
        split
        · next hp => exact hs r (hdb t r hr) hp
        · exact hdb t r hr
    | delete t p =>
        cases h
        intro r' hr'
        replace hr' : r' ∈ Function.update db t _ t := hr'
        rw [Function.update_self] at hr'
        exact hdb t r' (List.mem_filter.mp hr').1
    | cascade t p =>
        cases h
        intro r' hr'
        replace hr' : r' ∈ Function.update db t _ t := hr'
        rw [Function.update_self] at hr'
        exact hdb t r' (List.mem_filter.mp hr').1
  intro t
  by_cases ht : s.table = t
  · subst ht
    exact htable
  · rw [DbWrite.apply_frame h ht]
    exact hdb t

theorem typed_applyAll (hs : ∀ s ∈ ss, s.Typed T) (hdb : ∀ t, ∀ r ∈ db t, T.row t r)
    (h : applyAll ss db = some db') : ∀ t, ∀ r ∈ db' t, T.row t r := by
  induction ss generalizing db with
  | nil =>
      cases h
      exact hdb
  | cons s ss ih =>
      obtain ⟨db₁, h₁, h₂⟩ := Option.bind_eq_some_iff.mp h
      obtain ⟨hhead, htail⟩ := List.forall_mem_cons.mp hs
      exact ih htail (hhead.apply hdb h₁) h₂

theorem Typing.Holds.put (h : T.Holds w) {c : CacheName} {k : String} {v : CacheVal}
    (hv : T.entry c k v) : T.Holds (w.put c k v) where
  rows := h.rows
  entries c' k' v' hv' := by
    rw [World.put_cache] at hv'
    split at hv'
    · next he =>
        obtain ⟨rfl, rfl⟩ := he
        cases hv'
        exact hv
    · exact h.entries c' k' v' hv'

theorem Typing.Holds.del (h : T.Holds w) (c : CacheName) (k : String) : T.Holds (w.del c k) where
  rows := h.rows
  entries c' k' v' hv' := by
    rw [World.del_cache] at hv'
    split at hv'
    · cases hv'
    · exact h.entries c' k' v' hv'

/-- What a footprint leaves alone, and what it may write anyhow. -/
theorem Typing.Holds.frame {ts : List Table} {cs : List (CacheName × Slot)} (h : T.Holds w)
    (hts : ∀ t ∈ ts, ∀ r, T.row t r) (hcs : ∀ c k v, (c, v.slot) ∈ cs → T.entry c k v)
    (hf : Frame ts cs w w') : T.Holds w' where
  rows t r hr := by
    by_cases ht : t ∈ ts
    · exact hts t ht r
    · rw [hf.db t ht] at hr
      exact h.rows t r hr
  entries c k v hv := by
    rcases hf.cache c k v hv with hv | hv
    · exact h.entries c k v hv
    · exact hcs c k v hv

end Step

/-! ### The calls -/

section Calls

variable {T : Typing} {ε α β : Type}
  {c : CacheName} {k : String}
  {as : CacheVal → Option α}

theorem typed_of_touches {p : M ε α} {ts : List Table} {cs : List (CacheName × Slot)}
    (hp : Touches ts cs p) (hts : ∀ t ∈ ts, ∀ r, T.row t r)
    (hcs : ∀ c k v, (c, v.slot) ∈ cs → T.entry c k v) :
    Keeps sem T.Holds p fun _ => True :=
  keeps_of_touches hp fun _ _ hf h => h.frame hts hcs hf

theorem typed_fetchOne {t : Table} {p : Row t → Bool} :
    Keeps sem T.Holds (fetchOne t p) fun r => T.row t r ∧ p r = true :=
  keeps_fetchOne fun _ r h hr hp => ⟨h.rows t r hr, hp⟩

theorem typed_execute {ss : List DbWrite} (hs : ∀ s ∈ ss, s.Typed T) :
    Keeps sem T.Holds (execute ss) fun _ => True :=
  keeps_execute fun _ _ h hdb =>
    { rows := typed_applyAll hs h.rows hdb.applied, entries := h.entries }

theorem typed_cachePut {v : CacheVal} (hv : T.entry c k v) :
    Keeps sem T.Holds (cachePut c k v) fun _ => True := keeps_cachePut fun _ h => h.put hv

theorem typed_cacheDel :
    Keeps sem T.Holds (cacheDel c k) fun _ => True := by
  have htouches : Touches [] [] (cacheDel c k) := touches_cacheDel c k
  exact typed_of_touches htouches (by simp) (by simp)

theorem typed_cacheGet :
    Keeps sem T.Holds (cacheGet c k as) fun x =>
      ∀ a, x = some a → ∃ v, as v = some a ∧ T.entry c k v := by
  refine keeps_cacheGet (fun _ h => h.del c k) (fun a ha => by cases ha) fun w v a h hv ha b hb => ?_
  cases hb
  exact ⟨v, ha, h.entries c k v hv⟩

theorem typed_cached {wrap : α → CacheVal} {load : M ErrorResponse α} {F : α → Prop}
    (hhit : ∀ v a, as v = some a → T.entry c k v → F a) (hload : Keeps sem T.Holds load F)
    (hput : ∀ a, F a → T.entry c k (wrap a)) :
    Keeps sem T.Holds (cached c k as wrap load) F :=
  keeps_cached (fun _ h => h.del c k) (fun _ v a h hv ha => hhit v a ha (h.entries c k v hv)) hload
    fun _ a ha h => h.put (hput a ha)

end Calls

/-! ### Users -/

/-- A typing that says of the copies of the users what it says of the rows, and nothing of the
sessions and tokens that end with them. -/
structure Typing.ForUsers (T : Typing) : Prop where
  copy : ∀ k u, T.entry .users k (.user u) ↔ T.row .users u
  stamp : ∀ u r : User, T.row .users u → r.id = u.id →
    T.row .users { u with id := r.id, createdAt := r.createdAt }
  session : ∀ s, T.row .sessions s
  refreshToken : ∀ rt, T.row .refreshTokens rt
  cachedSession : ∀ k s, T.entry .sessions k (.session s)
  cached12hr : ∀ k v, T.entry .c12hr k v

namespace Typing.ForUsers

variable {T : Typing} {u : User} (hT : T.ForUsers)

include hT

theorem cachedUser {k : String} {p : User → Bool} :
    Keeps sem T.Holds (cached .users (User.cacheIdx k) CacheVal.user? .user (fetchOne .users p))
      (T.row .users) := by
  refine typed_cached (fun v a ha hv => ?_) (keeps_mono typed_fetchOne fun _ h => h.1)
    fun a ha => (hT.copy _ a).mpr ha
  rw [CacheVal.user?_eq_some.mp ha] at hv
  exact (hT.copy _ a).mp hv

theorem find (id : String) : Keeps sem T.Holds (User.find id) (T.row .users) := hT.cachedUser

theorem findByEmail (data : AppState) (email : String) :
    Keeps sem T.Holds (User.findByEmail data email) (T.row .users) := hT.cachedUser

theorem isEmailFree (data : AppState) (email : String) :
    Keeps sem T.Holds (User.isEmailFree data email) fun _ => True := by
  refine keeps_bind (keeps_tried (hT.findByEmail data email)) fun r _ => ?_
  rcases r with e | u
  · trivial
  · trivial

theorem saveStmt (hu : T.row .users u) : u.saveStmt.Typed T := by
  intro r _ hid
  exact hT.stamp u r hu (beq_iff_eq.mp hid)

theorem saveCached (hu : T.row .users u) (oldEmail : Option String) :
    Keeps sem T.Holds (u.saveCached oldEmail) fun _ => True := by
  have hts : ∀ t ∈ [Table.sessions], ∀ r, T.row t r := by simpa using hT.session
  have hrt : ∀ t ∈ [Table.refreshTokens], ∀ r, T.row t r := by simpa using hT.refreshToken
  refine keeps_bind (keeps_runIf fun _ => keeps_bind (F := fun _ => True) ?_ fun _ _ => ?_)
    fun _ _ => ?_
  · refine typed_of_touches (Session.invalidateForUser_touches u.id) hts fun c k v hv => ?_
    cases v <;> simp [CacheVal.slot] at hv
    subst hv
    exact hT.cachedSession _ _
  · exact typed_of_touches (RefreshToken.invalidateForUser_touches u.id) hrt (by simp)
  refine keeps_bind (keeps_forEach fun _ _ => typed_cacheDel) fun _ _ => ?_
  exact keeps_bind (typed_cachePut ((hT.copy _ u).mpr hu)) fun _ _ =>
    typed_cachePut ((hT.copy _ u).mpr hu)

/-- **A save of such a user**, in or out of a transaction, whatever its old e-mail was. -/
theorem save (hu : T.row .users u) (data : AppState) (oldEmail : Option String) :
    Keeps sem T.Holds (u.save data oldEmail) fun _ => True := by
  refine keeps_bind (keeps_runIf fun _ => hT.isEmailFree data u.email) fun _ _ => ?_
  refine keeps_bind (typed_execute ?_) fun _ _ => hT.saveCached hu oldEmail
  simpa using hT.saveStmt hu

theorem saveTxn (hu : T.row .users u) :
    Keeps sem T.Holds u.saveTxn fun s => s.Typed T := by
  refine keeps_bind (typed_execute (by simp)) fun _ _ => ?_
  exact keeps_bind (hT.saveCached hu none) fun _ _ => hT.saveStmt hu

end Typing.ForUsers

end Rauthy
