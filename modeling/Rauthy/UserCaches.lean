/-
Rauthy/UserCaches.lean

The copies of the users in the cache `users`: `User::find` and `User::find_by_email` answer
from them, and every operation on users has to keep them like the rows.  The operations here
run one after the other, to their end, with stores that answer.

`User::update_language` and the foreign key behind `AuthProvider::delete` change rows and
leave the copies; both keys of a user share one space of names.

Main result: `users_found`, on the operations that do not run into this.
-/
import Rauthy.AuthProviders
import Rauthy.Revocation

namespace Rauthy

open Prog

/-! ### The operations -/

inductive UserOp where
  | find (id : String)
  | findByEmail (email : String)
  | create (newUser : User) (postResetRedirectUri : Option String)
  | createFederated (newUser : User)
  | save (u : User) (oldEmail : Option String)
  /-- a transaction that saves users and does `rest`; no caller changes e-mails in one -/
  | saveTxn (us : List User) (rest : List DbWrite)
  | update (id : String) (upd : UpdateUserRequest) (user : Option User)
  | updateLanguage (u : User)
  | convertToPasskey (id : String)
  | providerUnlink (id : String)
  | delete (u : User)
  | deleteProvider (id : String)

def UserOp.prog (data : AppState) : UserOp → M ErrorResponse Unit
  | find id => do let _ ← User.find id
  | findByEmail email => do let _ ← User.findByEmail data email
  | create newUser uri => do let _ ← User.create data newUser uri
  | createFederated newUser => do let _ ← User.createFederated newUser
  | save u oldEmail => u.save data oldEmail
  | saveTxn us rest => do
      let stmts ← User.saveAll us
      execute (stmts ++ rest)
  | update id upd user => do let _ ← User.update data id upd user
  | updateLanguage u => u.updateLanguage
  | convertToPasskey id => User.convertToPasskey data id
  | providerUnlink id => do let _ ← User.providerUnlink data id
  | delete u => u.delete
  | deleteProvider id => AuthProvider.delete data id

/-! ### What the lookups should answer -/

/-- The row, or the error that there is none. -/
def rowBy (p : User → Bool) (rows : List User) : Except (Fault ErrorResponse) User :=
  match (rows.filter p).head? with
  | some u => .ok u
  | none => .error (err .notFound "not found")

/-- E-mails have an `@`, which the requests check; ids have none. -/
def hasAt (s : String) : Prop := '@' ∈ s.toList

instance (s : String) : Decidable (hasAt s) := inferInstanceAs (Decidable ('@' ∈ s.toList))

/-- An e-mail in lower case. -/
def MailOk (data : AppState) (email : String) : Prop :=
  hasAt email ∧ data.toLowercase email = email

/-- Every lookup answers with the row that is there now; the case of an e-mail does not matter. -/
structure FindsUsers (data : AppState) (w : World) : Prop where
  find : ∀ id, ¬ hasAt id →
    Outcomes semUp (User.find id) w fun r _ => r = rowBy (fun u => u.id == id) (w.db .users)
  findByEmail : ∀ email, hasAt (data.toLowercase email) →
    Outcomes semUp (User.findByEmail data email) w fun r _ =>
      r = rowBy (fun u => data.toLowercase u.email == data.toLowercase email) (w.db .users)

/-- Two unique columns, of different shape, which the table guarantees, and e-mails in lower case,
which it does not. -/
structure TableOk (data : AppState) (rows : List User) : Prop where
  ids : ∀ u ∈ rows, ∀ v ∈ rows, u.id = v.id → u = v
  emails : ∀ u ∈ rows, ∀ v ∈ rows, u.email = v.email → u = v
  id : ∀ u ∈ rows, ¬ hasAt u.id
  email : ∀ u ∈ rows, MailOk data u.email

/-- The entries of the cache but those under `ks` are copies of these rows. -/
def CopiesBut (ks : List String) (rows : List User) (w : World) : Prop :=
  ∀ k v, k ∉ ks → w.cache .users (User.cacheIdx k) = some v →
    ∃ u ∈ rows, v = .user u ∧ (u.id = k ∨ u.email = k)

/-- The entries of the cache are copies of the rows. -/
structure Coherent (data : AppState) (w : World) : Prop where
  table : TableOk data (w.db .users)
  copies : CopiesBut [] (w.db .users) w

/-- Neither entry of the user is there. -/
def NotCached (w : World) (u : User) : Prop :=
  w.cache .users (User.cacheIdx u.id) = none ∧ w.cache .users (User.cacheIdx u.email) = none

/-- The user can be saved: it is a copy of a row, and no other row has its e-mail. -/
def SavesRow (data : AppState) (rows : List User) (u : User) (oldEmail : Option String) : Prop :=
  MailOk data u.email ∧ ∃ r ∈ rows, r.id = u.id ∧ r.createdAt = u.createdAt ∧
    match oldEmail with
    | none => u.email = r.email
    | some e => e = r.email ∧ ∀ v ∈ rows, v.email = u.email → v.id = u.id

/-- The user is a changed copy of a row, and `oldEmail` is there if the e-mail has changed.  The
new one is in lower case, so that the check that it is free finds out if somebody has it. -/
def SavesCopy (data : AppState) (rows : List User) (u : User) (oldEmail : Option String) : Prop :=
  MailOk data u.email ∧ ∃ r ∈ rows, r.id = u.id ∧ r.createdAt = u.createdAt ∧
    match oldEmail with
    | none => u.email = r.email
    | some e => e = r.email

/-- The operation leaves no stale copy behind. -/
def UserOp.Clean (data : AppState) (w : World) : UserOp → Prop
  | find _ => True
  | findByEmail _ => True
  | create newUser _ => ¬ hasAt newUser.id ∧ MailOk data newUser.email
  | createFederated newUser => ¬ hasAt newUser.id ∧ MailOk data newUser.email
  | save u oldEmail => SavesCopy data (w.db .users) u oldEmail
  | saveTxn us rest =>
      (∀ u ∈ us, SavesRow data (w.db .users) u none) ∧ ∀ s ∈ rest, s.table ≠ .users
  | update _ upd user =>
      MailOk data (data.toLowercase upd.email) ∧ ∀ u, user = some u → u ∈ w.db .users
  | updateLanguage u => ∀ r ∈ w.db .users, r.id = u.id → r.language = u.language ∨ NotCached w r
  | convertToPasskey _ => True
  | providerUnlink _ => True
  | delete u => ∀ r ∈ w.db .users, r.id = u.id → r.email = u.email
  | deleteProvider id => ∀ r ∈ w.db .users, r.authProviderId = some id → NotCached w r

/-- The world after operations that all satisfy `C`, from one without copies. -/
inductive UserHistory (data : AppState) (C : World → UserOp → Prop) : World → Prop
  | start {w : World} (htable : TableOk data (w.db .users))
      (hempty : ∀ k, w.cache .users (User.cacheIdx k) = none) : UserHistory data C w
  | step {w w' : World} {o : UserOp} {r : Except (Fault ErrorResponse) Unit}
      (h : UserHistory data C w) (hC : C w o) (hx : Exec semUp (o.prog data) w r w') :
      UserHistory data C w'

/-! ### Copies under changes of the world -/

section Copies

variable {data : AppState} {ks : List String} {rows : List User} {w w' : World}

theorem CopiesBut.frame {ts : List Table} {cs : List (CacheName × Slot)}
    (h : CopiesBut ks rows w) (hf : Frame ts cs w w') (hc : ∀ s, (.users, s) ∉ cs) :
    CopiesBut ks rows w' := by
  intro k v hk hv
  rcases hf.cache _ _ v hv with hv | hv
  · exact h k v hk hv
  · exact absurd hv (hc _)

theorem Coherent.of_rows (ht : TableOk data rows) (hc : CopiesBut [] rows w) (hrows : w.db .users = rows) :
    Coherent data w := by
  subst hrows
  exact ⟨ht, hc⟩

theorem CopiesBut.del {k : String} (h : CopiesBut (k :: ks) rows w) :
    CopiesBut ks rows (w.del .users (User.cacheIdx k)) := by
  intro k' v hk' hv
  rw [World.del_cache] at hv
  split at hv
  · cases hv
  · next hne =>
      refine h k' v ?_ hv
      rintro (_ | ⟨_, hmem⟩)
      · exact hne ⟨rfl, rfl⟩
      · exact hk' (by assumption)

theorem CopiesBut.put {k : String} {u : User} (h : CopiesBut (k :: ks) rows w) (hu : u ∈ rows)
    (hk : u.id = k ∨ u.email = k) : CopiesBut ks rows (w.put .users (User.cacheIdx k) (.user u)) := by
  intro k' v hk' hv
  rw [World.put_cache] at hv
  split at hv
  · next he =>
      obtain rfl := User.cacheIdx_inj.mp he.2
      cases hv
      exact ⟨u, hu, rfl, hk⟩
  · next hne =>
      refine h k' v ?_ hv
      rintro (_ | ⟨_, hmem⟩)
      · exact hne ⟨rfl, rfl⟩
      · exact hk' (by assumption)

theorem CopiesBut.mono {ks' : List String} (h : CopiesBut ks rows w) (hks : ks ⊆ ks') :
    CopiesBut ks' rows w := fun k v hk hv => h k v (fun hmem => hk (hks hmem)) hv

/-- The rows of users whose keys are both left out may be changed. -/
theorem CopiesBut.rows_mono {rows' : List User} (h : CopiesBut ks rows w)
    (hrows : ∀ u ∈ rows, u.id ∉ ks ∨ u.email ∉ ks → u ∈ rows') : CopiesBut ks rows' w := by
  intro k v hk hv
  obtain ⟨u, hu, rfl, hkey⟩ := h k v hk hv
  refine ⟨u, hrows u hu ?_, rfl, hkey⟩
  rcases hkey with rfl | rfl
  · exact .inl hk
  · exact .inr hk

theorem CopiesBut.map {f : User → User} (h : CopiesBut [] rows w)
    (hf : ∀ u ∈ rows, f u = u ∨ NotCached w u) : CopiesBut [] (rows.map f) w := by
  intro k v hk hv
  obtain ⟨u, hu, rfl, hkey⟩ := h k v hk hv
  rcases hf u hu with he | ⟨hid, hemail⟩
  · exact ⟨u, List.mem_map.mpr ⟨u, hu, he⟩, rfl, hkey⟩
  · rcases hkey with rfl | rfl
    · rw [hid] at hv
      cases hv
    · rw [hemail] at hv
      cases hv

theorem cacheIdx_ne_values (k id : String) : User.cacheIdx k ≠ UserValues.cacheIdx id := by
  intro h
  have h' := congrArg String.toList h
  simp [User.cacheIdx, UserValues.cacheIdx] at h'

end Copies

/-! ### Lookups -/

section Lookups

variable {w w' : World} {rows : List User} {p : User → Bool} {k : String} {data : AppState}

theorem rowBy_eq_ok {u : User} (hu : u ∈ rows) (hp : p u = true)
    (huniq : ∀ v ∈ rows, p v = true → v = u) : rowBy p rows = .ok u := by
  unfold rowBy
  have hmem : u ∈ rows.filter p := List.mem_filter.mpr ⟨hu, hp⟩
  rcases hl : rows.filter p with - | ⟨v, l⟩
  · rw [hl] at hmem
    cases hmem
  · have hv : v ∈ rows.filter p := by
      rw [hl]
      exact List.mem_cons_self
    obtain ⟨hv, hpv⟩ := List.mem_filter.mp hv
    rw [huniq v hv hpv]
    rfl

theorem TableOk.key_unique (h : TableOk data rows) {u v : User} (hu : u ∈ rows) (hv : v ∈ rows)
    (huk : u.id = k ∨ u.email = k) (hvk : v.id = k ∨ v.email = k) : u = v := by
  rcases huk with huk | huk
  · rcases hvk with hvk | hvk
    · exact h.ids u hu v hv (huk.trans hvk.symm)
    · refine absurd (h.email v hv).1 ?_
      rw [hvk, ← huk]
      exact h.id u hu
  · rcases hvk with hvk | hvk
    · refine absurd (h.email u hu).1 ?_
      rw [huk, ← hvk]
      exact h.id v hv
    · exact h.emails u hu v hv (huk.trans hvk.symm)

/-- A lookup through the cache: the copies stay right, what it finds is a row with this key, and
it finds the row that `p` selects, if `p` is how the key is read. -/
theorem Coherent.lookup (h : Coherent data w)
    (hp : ∀ u ∈ w.db .users, p u = true → u.id = k ∨ u.email = k) :
    Outcomes semUp (cached .users (User.cacheIdx k) CacheVal.user? .user (fetchOne .users p)) w
      fun r w' => Coherent data w' ∧ w'.db = w.db ∧
        (∀ u, r = .ok u → u ∈ w.db .users ∧ (u.id = k ∨ u.email = k)) ∧
        ((∀ u ∈ w.db .users, u.id = k ∨ u.email = k → p u = true) → r = rowBy p (w.db .users)) := by
  have huniq : ∀ u ∈ w.db .users, (u.id = k ∨ u.email = k) → ∀ v ∈ w.db .users, p v = true → v = u :=
    fun u hu huk v hv hpv => h.table.key_unique hv hu (hp v hv hpv) huk
  refine answered_cached (fun v hv => ?_) fun w₁ hw₁ => ?_
  · obtain ⟨u, hu, rfl, hkey⟩ := h.copies k v (by simp) hv
    refine ⟨u, rfl, h, rfl, fun u' hu' => ?_, fun hpk => ?_⟩
    · cases hu'
      exact ⟨hu, hkey⟩
    · exact (rowBy_eq_ok hu (hpk u hu hkey) (huniq u hu hkey)).symm
  · have hdb : w₁.db = w.db := by rcases hw₁ with rfl | rfl <;> rfl
    have hc₁ : CopiesBut [] (w.db .users) w₁ := by
      rcases hw₁ with rfl | rfl
      · exact h.copies
      · exact (h.copies.mono (List.nil_subset [k])).del
    refine answered_fetchOne (fun u hu => ?_) fun hnone => ?_
    · rw [hdb] at hu
      obtain ⟨hmem, hpu⟩ := List.mem_filter.mp (List.mem_of_head? hu)
      refine ⟨⟨?_, ?_⟩, hdb, fun u' hu' => ?_, fun _ => ?_⟩
      · rw [World.put_db, hdb]
        exact h.table
      · rw [World.put_db, hdb]
        exact (hc₁.mono (List.nil_subset [k])).put hmem (hp u hmem hpu)
      · cases hu'
        exact ⟨hmem, hp u hmem hpu⟩
      · rw [rowBy, hu]
    · rw [hdb] at hnone
      refine ⟨⟨hdb ▸ h.table, hdb ▸ hc₁⟩, hdb, fun u hu => ?_, fun _ => ?_⟩
      · cases hu
      · rw [rowBy, hnone]

theorem Coherent.find (h : Coherent data w) (id : String) :
    Outcomes semUp (User.find id) w fun r w' => Coherent data w' ∧ w'.db = w.db ∧
      (∀ u, r = .ok u → u ∈ w.db .users) ∧
      (¬ hasAt id → r = rowBy (fun u => u.id == id) (w.db .users)) := by
  refine outcomes_mono (h.lookup (k := id) fun u _ hu => .inl (by simpa using hu)) fun r w' hr => ?_
  obtain ⟨hc, hdb, hmem, heq⟩ := hr
  refine ⟨hc, hdb, fun u hu => (hmem u hu).1, fun hid => heq fun u hu hkey => ?_⟩
  rcases hkey with rfl | rfl
  · simp
  · exact absurd (h.table.email u hu).1 hid

theorem Coherent.findByEmail (h : Coherent data w) (email : String) :
    Outcomes semUp (User.findByEmail data email) w fun r w' => Coherent data w' ∧ w'.db = w.db ∧
      (hasAt (data.toLowercase email) →
        r = rowBy (fun u => u.email == data.toLowercase email) (w.db .users)) := by
  refine outcomes_mono (h.lookup (k := data.toLowercase email)
    fun u _ hu => .inr (by simpa using hu)) fun r w' hr => ?_
  obtain ⟨hc, hdb, -, heq⟩ := hr
  refine ⟨hc, hdb, fun hat => heq fun u hu hkey => ?_⟩
  rcases hkey with hkey | hkey
  · rw [← hkey] at hat
    exact absurd hat (h.table.id u hu)
  · simpa using hkey

theorem Coherent.finds (h : Coherent data w) : FindsUsers data w where
  find id hid := outcomes_mono (h.find id) fun _ _ hr => hr.2.2.2 hid
  findByEmail email hemail := by
    refine outcomes_mono (h.findByEmail email) fun r w' hr => (hr.2.2 hemail).trans ?_
    have hlower : (w.db .users).filter (fun u => u.email == data.toLowercase email) =
        (w.db .users).filter fun u => data.toLowercase u.email == data.toLowercase email :=
      List.filter_congr fun u hu => by rw [(h.table.email u hu).2]
    rw [rowBy, rowBy, hlower]

theorem Coherent.isEmailFree (h : Coherent data w) (email : String) :
    Outcomes semUp (User.isEmailFree data email) w fun r w' => Coherent data w' ∧ w'.db = w.db ∧
      (hasAt (data.toLowercase email) → r = .ok () →
        ∀ u ∈ w.db .users, u.email ≠ data.toLowercase email) := by
  refine outcomes_bind (outcomes_tried (outcomes_mono (h.findByEmail email) fun r w' hr => ?_))
  obtain ⟨hc, hdb, heq⟩ := hr
  rcases r with (e | msg) | u
  · refine outcomes_ret ⟨hc, hdb, fun hat _ u hu he => ?_⟩
    have hrow := heq hat
    unfold rowBy at hrow
    have hmem : u ∈ (w.db .users).filter fun u => u.email == data.toLowercase email :=
      List.mem_filter.mpr ⟨hu, by simpa using he⟩
    split at hrow
    · cases hrow
    · next hnone =>
        rw [List.head?_eq_none_iff.mp hnone] at hmem
        cases hmem
  · exact ⟨hc, hdb, fun _ he => by cases he⟩
  · exact outcomes_fail ⟨hc, hdb, fun _ he => by cases he⟩

end Lookups

/-! ### Saving -/

section Saving

variable {w w' : World} {rows : List User} {u : User} {oldEmail : Option String} {data : AppState}
  {v : User} {us : List User}

/-- The rows after the statement of `User::save`. -/
def User.replaced (u : User) (rows : List User) : List User :=
  rows.map fun r => if r.id == u.id then { u with id := r.id, createdAt := r.createdAt } else r

theorem SavesRow.mem_replaced (hs : SavesRow data rows u oldEmail) (ht : TableOk data rows) :
    v ∈ u.replaced rows ↔ v = u ∨ v ∈ rows ∧ v.id ≠ u.id := by
  obtain ⟨-, r, hr, hid, hcreated, -⟩ := hs
  have hnew : { u with id := r.id, createdAt := r.createdAt } = u := by rw [hid, hcreated]
  unfold User.replaced
  rw [List.mem_map]
  constructor
  · rintro ⟨x, hx, rfl⟩
    split
    · next he =>
        have hxr : x = r := ht.ids x hx r hr ((by simpa using he : x.id = u.id).trans hid.symm)
        exact .inl (by rw [hxr, hnew])
    · next he => exact .inr ⟨hx, by simpa using he⟩
  · rintro (rfl | ⟨hv, hne⟩)
    · exact ⟨r, hr, by rw [if_pos (by simpa using hid), hnew]⟩
    · exact ⟨v, hv, by rw [if_neg (by simpa using hne)]⟩

theorem SavesRow.other_email (hs : SavesRow data rows u oldEmail) (ht : TableOk data rows)
    (hv : v ∈ rows) (hne : v.id ≠ u.id) : v.email ≠ u.email := by
  obtain ⟨-, r, hr, hid, -, hold⟩ := hs
  intro he
  rcases oldEmail with - | e
  · have hvr : v = r := ht.emails v hv r hr (he.trans hold)
    exact hne (by rw [hvr, hid])
  · exact hne (hold.2 v hv he)

theorem SavesRow.table (hs : SavesRow data rows u oldEmail) (ht : TableOk data rows) :
    TableOk data (u.replaced rows) where
  ids x hx y hy he := by
    rcases (hs.mem_replaced ht).mp hx with rfl | ⟨hx, hxu⟩
    · rcases (hs.mem_replaced ht).mp hy with rfl | ⟨-, hyu⟩
      · rfl
      · exact absurd he.symm hyu
    · rcases (hs.mem_replaced ht).mp hy with rfl | ⟨hy, -⟩
      · exact absurd he hxu
      · exact ht.ids x hx y hy he
  emails x hx y hy he := by
    rcases (hs.mem_replaced ht).mp hx with rfl | ⟨hx₁, hxu⟩
    · rcases (hs.mem_replaced ht).mp hy with rfl | ⟨hy, hyu⟩
      · rfl
      · exact absurd he.symm (hs.other_email ht hy hyu)
    · rcases (hs.mem_replaced ht).mp hy with rfl | ⟨hy, -⟩
      · exact absurd he (hs.other_email ht hx₁ hxu)
      · exact ht.emails x hx₁ y hy he
  id x hx := by
    rcases (hs.mem_replaced ht).mp hx with rfl | ⟨hx, -⟩
    · obtain ⟨-, r, hr, hid, -⟩ := hs
      exact hid ▸ ht.id r hr
    · exact ht.id x hx
  email x hx := by
    rcases (hs.mem_replaced ht).mp hx with rfl | ⟨hx, -⟩
    · exact hs.1
    · exact ht.email x hx

theorem answered_invalidateSessions (uid : String) :
    Outcomes semUp (Session.invalidateForUser uid) w fun r _ => r = .ok () := by
  refine outcomes_bind (answered_unixTimestamp fun ms _ => ?_)
  refine outcomes_bind (outcomes_mono Session.answered_findAll fun r w₁ hr => ?_)
  obtain ⟨rfl, rfl⟩ := hr
  refine outcomes_bind (outcomes_mono (Session.answered_invalidateEach uid _) fun r w₂ hr => ?_)
  obtain ⟨rfl, rfl⟩ := hr
  exact outcomes_mono (Session.answered_uncache (fun id => id) _) fun r w₃ hr => hr.1

/-- The first part of `saveCached` always comes to its end and writes no users. -/
theorem answered_disable :
    Outcomes semUp (runIf (u.enabled = false) (do
      Session.invalidateForUser u.id
      RefreshToken.invalidateForUser u.id)) w fun r w' =>
        r = .ok () ∧ Frame [.sessions, .refreshTokens] [(.sessions, .session)] w w' := by
  intro r w' hx
  have htouch : Touches [.sessions, .refreshTokens] [(.sessions, .session)]
      (runIf (u.enabled = false) (do
        Session.invalidateForUser u.id
        RefreshToken.invalidateForUser u.id)) :=
    touches_runIf (touches_bind ((Session.invalidateForUser_touches u.id).mono (by simp) (by simp))
      fun _ => (RefreshToken.invalidateForUser_touches u.id).mono (by simp) (by simp))
  refine ⟨?_, htouch.frame hx.of_answering⟩
  unfold runIf at hx
  split at hx
  · have hok : Outcomes semUp (do
        Session.invalidateForUser u.id
        RefreshToken.invalidateForUser u.id) w fun r _ => r = .ok () := by
      refine outcomes_bind (outcomes_mono (answered_invalidateSessions u.id) fun r w₁ hr => ?_)
      subst hr
      exact outcomes_bind (answered_unixTimestamp fun ms _ => answered_execute fun db _ => rfl)
    exact hok r w' hx
  · exact hx.1

/-- **The copies after `saveCached`** are those of the rows after the statement, which may have
been executed before or is going to be. -/
theorem SavesRow.saveCached (hs : SavesRow data rows u oldEmail) (ht : TableOk data rows)
    (hc : CopiesBut [] rows w) :
    Outcomes semUp (u.saveCached oldEmail) w fun r w' => r = .ok () ∧
      CopiesBut [] (u.replaced rows) w' ∧ w'.db .users = w.db .users := by
  obtain ⟨-, r, hr, hid, -, hold⟩ := id hs
  have hu : u ∈ u.replaced rows := (hs.mem_replaced ht).mpr (.inl rfl)
  -- the copies of the other users are still right
  have hstale : CopiesBut [u.id, r.email] (u.replaced rows) w := by
    refine (hc.mono (List.nil_subset _)).rows_mono fun v hv hkey => ?_
    refine (hs.mem_replaced ht).mpr (.inr ⟨hv, fun he => ?_⟩)
    have hvr : v = r := ht.ids v hv r hr (he.trans hid.symm)
    subst hvr
    simp [he] at hkey
  refine outcomes_bind (outcomes_mono answered_disable fun x w₁ hx => ?_)
  obtain ⟨rfl, hf⟩ := hx
  have hdb₁ : w₁.db .users = w.db .users := hf.db .users (by simp)
  have hc₁ : CopiesBut [u.id, r.email] (u.replaced rows) w₁ := hstale.frame hf (by simp)
  rcases oldEmail with - | e
  · refine outcomes_bind (outcomes_ret (outcomes_bind (answered_cachePut (answered_cachePut ?_))))
    refine ⟨rfl, ?_, hdb₁⟩
    have hemail : u.email = r.email := hold
    rw [← hemail] at hc₁
    exact (hc₁.put hu (.inl rfl)).put hu (.inr rfl)
  · obtain ⟨rfl, -⟩ := hold
    refine outcomes_bind (outcomes_bind (answered_cacheDel (outcomes_ret ?_)))
    refine outcomes_bind (answered_cachePut (answered_cachePut ?_))
    refine ⟨rfl, ?_, hdb₁⟩
    have hc₂ : CopiesBut [u.id, u.email] (u.replaced rows)
        (w₁.del .users (User.cacheIdx r.email)) := by
      have hswap : CopiesBut [r.email, u.id] (u.replaced rows) w₁ := by
        refine hc₁.mono fun k hk => ?_
        simp only [List.mem_cons, List.not_mem_nil, or_false] at hk ⊢
        exact hk.symm
      exact hswap.del.mono (by simp)
    exact (hc₂.put hu (.inl rfl)).put hu (.inr rfl)

theorem saveStmt_users {db db' : Db} (h : applyAll [u.saveStmt] db = some db') :
    db' .users = u.replaced (db .users) := by
  simp only [applyAll, User.saveStmt, DbWrite.apply, Option.bind_some, Option.some.injEq] at h
  subst h
  exact Function.update_self ..

theorem SavesCopy.savesRow (h : SavesCopy data rows u oldEmail)
    (hfree : oldEmail.isSome = true → hasAt (data.toLowercase u.email) →
      ∀ v ∈ rows, v.email ≠ data.toLowercase u.email) : SavesRow data rows u oldEmail := by
  obtain ⟨hmail, r, hr, hid, hcreated, hold⟩ := h
  refine ⟨hmail, r, hr, hid, hcreated, ?_⟩
  rcases oldEmail with - | e
  · exact hold
  · rw [hmail.2] at hfree
    exact ⟨hold, fun v hv he => absurd he (hfree rfl hmail.1 v hv)⟩

theorem Coherent.save (h : Coherent data w) (hs : SavesCopy data (w.db .users) u oldEmail) :
    Outcomes semUp (u.save data oldEmail) w fun _ w' => Coherent data w' := by
  have hfree : Outcomes semUp (runIf (oldEmail.isSome = true) (User.isEmailFree data u.email)) w
      fun r w' => Coherent data w' ∧ w'.db = w.db ∧ (r = .ok () → oldEmail.isSome = true →
        hasAt (data.toLowercase u.email) →
        ∀ v ∈ w.db .users, v.email ≠ data.toLowercase u.email) := by
    unfold runIf
    split
    · refine outcomes_mono (h.isEmailFree u.email) fun r w' hr => ?_
      exact ⟨hr.1, hr.2.1, fun hok _ hat => hr.2.2 hat hok⟩
    · next hnone => exact outcomes_ret ⟨h, rfl, fun _ hsome => absurd hsome hnone⟩
  refine outcomes_bind (outcomes_mono hfree fun r w₁ hr => ?_)
  obtain ⟨h₁, hdb, hok⟩ := hr
  rcases r with e | ⟨⟩
  · exact h₁
  have hrow := hs.savesRow (hok rfl)
  rw [← hdb] at hrow
  refine outcomes_bind (answered_execute fun db hdb' => ?_)
  refine outcomes_mono (hrow.saveCached h₁.table (w := { w₁ with db }) h₁.copies) fun r w₂ hr => ?_
  obtain ⟨-, hc, hdb₂⟩ := hr
  exact .of_rows (hrow.table h₁.table) hc (hdb₂.trans (saveStmt_users hdb'))

theorem SavesRow.after (hs : SavesRow data rows u none) (ht : TableOk data rows)
    (hv : SavesRow data rows v none) : SavesRow data (u.replaced rows) v none := by
  obtain ⟨hat, r, hr, hid, hcreated, hemail⟩ := hv
  refine ⟨hat, ?_⟩
  by_cases he : r.id = u.id
  · obtain ⟨-, r', hr', hid', hcreated', hemail'⟩ := id hs
    obtain rfl : r = r' := ht.ids r hr r' hr' (he.trans hid'.symm)
    refine ⟨u, (hs.mem_replaced ht).mpr (.inl rfl), he ▸ hid, hcreated'.symm.trans hcreated, ?_⟩
    exact (show v.email = r.email from hemail).trans (show u.email = r.email from hemail').symm
  · exact ⟨r, (hs.mem_replaced ht).mpr (.inr ⟨hr, he⟩), hid, hcreated, hemail⟩

/-- The rows after the statements of a transaction. -/
def replacedAll (us rows : List User) : List User := us.foldl (fun rows u => u.replaced rows) rows

/-- The loop over the users of a transaction: the cache is ahead of the rows. -/
theorem answered_saveAll (hs : ∀ u ∈ us, SavesRow data rows u none) (ht : TableOk data rows)
    (hc : CopiesBut [] rows w) :
    Outcomes semUp (User.saveAll us) w fun r w' => r = .ok (us.map User.saveStmt) ∧
      TableOk data (replacedAll us rows) ∧ CopiesBut [] (replacedAll us rows) w' ∧
      w'.db .users = w.db .users := by
  induction us generalizing rows w with
  | nil => exact outcomes_ret ⟨rfl, ht, hc, rfl⟩
  | cons u us ih =>
      have hu := hs u List.mem_cons_self
      refine outcomes_bind (outcomes_bind (answered_execute fun db hdb => ?_))
      cases hdb
      refine outcomes_bind (outcomes_mono (hu.saveCached ht hc) fun r w₁ hr => ?_)
      obtain ⟨rfl, hc₁, hdb₁⟩ := hr
      have hrest : ∀ v ∈ us, SavesRow data (u.replaced rows) v none :=
        fun v hv => hu.after ht (hs v (List.mem_cons_of_mem _ hv))
      refine outcomes_ret (outcomes_bind (outcomes_mono (ih hrest (hu.table ht) hc₁) fun r w₂ hr => ?_))
      obtain ⟨rfl, ht₂, hc₂, hdb₂⟩ := hr
      exact outcomes_ret ⟨rfl, ht₂, hc₂, hdb₂.trans hdb₁⟩

theorem saveStmts_users {rest : List DbWrite} {db db' : Db} (hrest : ∀ s ∈ rest, s.table ≠ .users)
    (h : applyAll (us.map User.saveStmt ++ rest) db = some db') :
    db' .users = replacedAll us (db .users) := by
  induction us generalizing db with
  | nil => exact applyAll_frame h hrest
  | cons u us ih =>
      obtain ⟨db₁, h₁, h₂⟩ := Option.bind_eq_some_iff.mp h
      have hu : db₁ .users = u.replaced (db .users) := saveStmt_users (by
        rw [applyAll, h₁]
        rfl)
      rw [ih h₂, hu]
      rfl

theorem Coherent.saveTxn (h : Coherent data w) {rest : List DbWrite}
    (hs : ∀ u ∈ us, SavesRow data (w.db .users) u none) (hrest : ∀ s ∈ rest, s.table ≠ .users) :
    Outcomes semUp ((UserOp.saveTxn us rest).prog data) w fun _ w' => Coherent data w' := by
  refine outcomes_bind (outcomes_mono (answered_saveAll hs h.table h.copies) fun r w₁ hr => ?_)
  obtain ⟨rfl, ht, hc, hdb₁⟩ := hr
  refine answered_execute fun db hdb => ?_
  have hrows : db .users = replacedAll us (w.db .users) := by
    rw [saveStmts_users hrest hdb, hdb₁]
  exact .of_rows ht hc hrows

end Saving

/-! ### The other operations -/

section Steps

variable {w w' : World} {u : User} {data : AppState}
  {cs : List (CacheName × Slot)} {upd : UpdateUserRequest}

theorem Coherent.frame {ts : List Table} (h : Coherent data w) (hf : Frame ts cs w w')
    (ht : Table.users ∉ ts) (hc : ∀ s, (.users, s) ∉ cs) : Coherent data w' :=
  .of_rows h.table (h.copies.frame hf hc) (hf.db .users ht)

theorem Coherent.of_touches {α : Type} {p : M ErrorResponse α} {ts : List Table}
    (h : Coherent data w) (hp : Touches ts cs p) (ht : Table.users ∉ ts)
    (hc : ∀ s, (.users, s) ∉ cs) : Outcomes semUp p w fun _ w' => Coherent data w' :=
  fun _ _ hx => h.frame (hp.frame hx.of_answering) ht hc

theorem User.count_touches : Touches [] [(.c12hr, .count)] User.count :=
  touches_cached (touches_bind (touches_select _ _) fun _ => touches_ret _) (by simp [CacheVal.slot])

theorem TableOk.append {rows : List User} {n : User} (h : TableOk data rows) (hid : ¬ hasAt n.id)
    (hemail : MailOk data n.email) (hnew : ∀ u ∈ rows, u.id ≠ n.id ∧ u.email ≠ n.email) :
    TableOk data (rows ++ [n]) := by
  have hmem : ∀ u, u ∈ rows ++ [n] → u ∈ rows ∨ u = n := fun u hu => by simpa using hu
  refine ⟨fun x hx y hy he => ?_, fun x hx y hy he => ?_, fun x hx => ?_, fun x hx => ?_⟩
  · rcases hmem x hx with hx₁ | rfl
    · rcases hmem y hy with hy | rfl
      · exact h.ids x hx₁ y hy he
      · exact absurd he (hnew x hx₁).1
    · rcases hmem y hy with hy | rfl
      · exact absurd he.symm (hnew y hy).1
      · rfl
  · rcases hmem x hx with hx₁ | rfl
    · rcases hmem y hy with hy | rfl
      · exact h.emails x hx₁ y hy he
      · exact absurd he (hnew x hx₁).2
    · rcases hmem y hy with hy | rfl
      · exact absurd he.symm (hnew y hy).2
      · rfl
  · rcases hmem x hx with hx | rfl
    · exact h.id x hx
    · exact hid
  · rcases hmem x hx with hx | rfl
    · exact h.email x hx
    · exact hemail

theorem Coherent.insertRow (h : Coherent data w) {n : User} (hid : ¬ hasAt n.id) (hemail : MailOk data n.email)
    {db : Db} (hdb : applyAll [.insert .users n] w.db = some db) : Coherent data { w with db } := by
  simp only [applyAll, DbWrite.apply] at hdb
  split at hdb
  · cases hdb
  next hfree =>
  cases hdb
  -- the insert was accepted, so both unique columns are new
  have hnew : ∀ v ∈ w.db .users, v.id ≠ n.id ∧ v.email ≠ n.email := by
    intro v hv
    have hno := fun hc => hfree (List.any_eq_true.mpr ⟨v, hv, hc⟩)
    simp only [conflicts, sameKey, Bool.or_eq_true, beq_iff_eq] at hno
    exact ⟨fun he => hno (.inl he.symm), fun he => hno (.inr he.symm)⟩
  refine .of_rows (h.table.append hid hemail hnew) ?_ (Function.update_self .users _ w.db)
  exact h.copies.rows_mono fun v hv _ => List.mem_append_left _ hv

theorem Coherent.insert (h : Coherent data w) (hid : ¬ hasAt u.id) (hemail : MailOk data u.email) :
    Outcomes semUp (User.insert u) w fun _ w' => Coherent data w' := by
  have hcount : Touches [] [(.c12hr, .count)] User.countInc :=
    touches_bind User.count_touches fun _ => touches_cachePut (by simp [CacheVal.slot]) _
  refine outcomes_bind (answered_execute fun db hdb => ?_)
  have h₁ := h.insertRow (by exact hid) (by exact hemail) hdb
  refine outcomes_bind (outcomes_mono (h₁.of_touches hcount (by simp) (by simp)) fun r w₁ hr => ?_)
  rcases r with e | ⟨⟩
  · exact hr
  · exact outcomes_ret hr

theorem Coherent.create (h : Coherent data w) (hid : ¬ hasAt u.id) (hemail : MailOk data u.email)
    (uri : Option String) : Outcomes semUp (User.create data u uri) w fun _ w' => Coherent data w' := by
  refine outcomes_bind (outcomes_mono (h.insert hid hemail) fun r w₁ h₁ => ?_)
  rcases r with e | slf
  · exact h₁
  refine outcomes_bind (outcomes_mono (h₁.of_touches (MagicLink.create_touches _ _ _) (by simp)
    (by simp)) fun r w₂ h₂ => ?_)
  rcases r with e | link
  · exact h₂
  · exact outcomes_ret h₂

/-- A statement that changes rows without copies, and no keys. -/
theorem Coherent.mapRows (h : Coherent data w) {f : User → User}
    (hf : ∀ u ∈ w.db .users, f u = u ∨ NotCached w u) (hid : ∀ u, (f u).id = u.id)
    (hemail : ∀ u, (f u).email = u.email) {db : Db} (hrows : db .users = (w.db .users).map f) :
    Coherent data { w with db } := by
  refine .of_rows ⟨?_, ?_, ?_, ?_⟩ (h.copies.map hf) hrows
  · intro x hx y hy he
    obtain ⟨a, ha, rfl⟩ := List.mem_map.mp hx
    obtain ⟨b, hb, rfl⟩ := List.mem_map.mp hy
    rw [hid, hid] at he
    rw [h.table.ids a ha b hb he]
  · intro x hx y hy he
    obtain ⟨a, ha, rfl⟩ := List.mem_map.mp hx
    obtain ⟨b, hb, rfl⟩ := List.mem_map.mp hy
    rw [hemail, hemail] at he
    rw [h.table.emails a ha b hb he]
  · intro x hx
    obtain ⟨a, ha, rfl⟩ := List.mem_map.mp hx
    rw [hid]
    exact h.table.id a ha
  · intro x hx
    obtain ⟨a, ha, rfl⟩ := List.mem_map.mp hx
    rw [hemail]
    exact h.table.email a ha

theorem Coherent.updateLanguage (h : Coherent data w)
    (hu : ∀ r ∈ w.db .users, r.id = u.id → r.language = u.language ∨ NotCached w r) :
    Outcomes semUp u.updateLanguage w fun _ w' => Coherent data w' := by
  refine answered_execute fun db hdb => ?_
  simp only [applyAll, DbWrite.apply, Option.bind_some, Option.some.injEq] at hdb
  refine h.mapRows (f := fun r => if r.id == u.id then { r with language := u.language } else r)
    (fun r hr => ?_) (fun r => ?_) (fun r => ?_) (by rw [← hdb]; exact Function.update_self ..)
  · split
    · next he =>
        rcases hu r hr (by simpa using he) with hl | hn
        · exact .inl (by rw [← hl])
        · exact .inr hn
    · exact .inl rfl
  · split <;> rfl
  · split <;> rfl

theorem AuthProvider.invalidateCacheAll_touches :
    Touches [] [(.c12hr, .authProviders), (.c12hr, .bytes)] (AuthProvider.invalidateCacheAll data) := by
  have hall : Touches [] [(.c12hr, .authProviders), (.c12hr, .bytes)] AuthProvider.findAll :=
    touches_cached (touches_select _ _) (by simp [CacheVal.slot])
  refine touches_bind (touches_cacheDel _ _) fun _ => touches_bind (touches_cacheDel _ _) fun _ => ?_
  refine touches_bind (touches_cached ?_ (by simp [CacheVal.slot])) fun _ => touches_ret _
  exact touches_bind hall fun _ => touches_ret _

theorem Coherent.deleteProvider (h : Coherent data w) {id : String}
    (hid : ∀ r ∈ w.db .users, r.authProviderId = some id → NotCached w r) :
    Outcomes semUp (AuthProvider.delete data id) w fun _ w' => Coherent data w' := by
  refine outcomes_bind (answered_execute fun db hdb => ?_)
  simp only [AuthProvider.deleteStmts, applyAll, DbWrite.apply, Option.bind_some,
    Option.some.injEq] at hdb
  have h₁ : Coherent data { w with db } := by
    refine h.mapRows (f := fun r => if r.authProviderId == some id then
      { r with authProviderId := none } else r) (fun r hr => ?_) (fun r => ?_) (fun r => ?_) ?_
    · split
      · next he => exact .inr (hid r hr (by simpa using he))
      · exact .inl rfl
    · split <;> rfl
    · split <;> rfl
    · rw [← hdb, Function.update_self, Function.update_of_ne (by decide)]
  have htouch := touches_bind (@AuthProvider.invalidateCacheAll_touches data) fun _ =>
    touches_cacheDel .c12hr (AuthProvider.cacheIdx id)
  exact h₁.of_touches htouch (by simp) (by simp)

theorem Session.deleteByUser_touches (uid : String) :
    Touches [.sessions] [] (Session.deleteByUser uid) := by
  refine touches_bind (touches_select _ _) fun l => ?_
  refine touches_bind (touches_execute (by simp [DbWrite.table])) fun _ => ?_
  exact within_forEach fun _ _ => touches_cacheDel _ _

theorem Coherent.delete (h : Coherent data w)
    (hu : ∀ r ∈ w.db .users, r.id = u.id → r.email = u.email) :
    Outcomes semUp u.delete w fun _ w' => Coherent data w' := by
  refine outcomes_bind fun r w₁ hx₁ => ?_
  have hf := (Session.deleteByUser_touches u.id).frame hx₁.of_answering
  have h₁ := h.frame hf (by simp) (by simp)
  rw [← hf.db .users (by simp)] at hu
  rcases r with e | ⟨⟩
  · exact h₁
  refine outcomes_bind (answered_execute fun db hdb => ?_)
  simp only [User.deleteStmts, applyAll, DbWrite.apply, Option.bind_some, Option.some.injEq] at hdb
  have hrows : db .users = (w₁.db .users).filter fun r => !(r.id == u.id) := by
    subst hdb
    simp [Function.update]
  have hmem : ∀ v, v ∈ db .users ↔ v ∈ w₁.db .users ∧ v.id ≠ u.id := by
    intro v
    rw [hrows, List.mem_filter]
    simp
  -- only the two entries of the user are left over
  have hstale : CopiesBut [u.id, u.email] (db .users) { w₁ with db } := by
    have hold : CopiesBut [u.id, u.email] (w₁.db .users) { w₁ with db } :=
      h₁.copies.mono (List.nil_subset _)
    refine hold.rows_mono fun v hv hkey => (hmem v).mpr ⟨hv, fun he => ?_⟩
    simp [he, hu v hv he] at hkey
  refine outcomes_bind (answered_cacheDel (outcomes_bind (answered_cacheDel ?_)))
  have h₂ : Coherent data ((({ w₁ with db } : World).del .users (User.cacheIdx u.id)).del .users
      (User.cacheIdx u.email)) := by
    refine .of_rows ⟨?_, ?_, ?_, ?_⟩ hstale.del.del rfl
    · exact fun x hx y hy => h₁.table.ids x ((hmem x).mp hx).1 y ((hmem y).mp hy).1
    · exact fun x hx y hy => h₁.table.emails x ((hmem x).mp hx).1 y ((hmem y).mp hy).1
    · exact fun x hx => h₁.table.id x ((hmem x).mp hx).1
    · exact fun x hx => h₁.table.email x ((hmem x).mp hx).1
  have htouch : Touches [] [(.c12hr, .count)] User.countDec :=
    touches_bind User.count_touches fun _ => touches_cachePut (by simp [CacheVal.slot]) _
  exact h₂.of_touches htouch (by simp) (by simp)

theorem User.applyPasswordRules_touches (plain : String) :
    Touches [.recentPasswords] [(.c12hr, .policy)] (u.applyPasswordRules data plain) := by
  refine touches_bind (PasswordPolicy.find_touches.mono (by simp) (by simp)) fun rules => ?_
  refine touches_bind (touches_answer _) fun _ => ?_
  refine touches_bind ⟨trivial, fun x => touches_answer x⟩ fun newHash => ?_
  refine touches_bind (within_forEach fun n _ => ?_) fun _ => touches_bind ?_ fun _ => touches_ret _
  · refine touches_bind (touches_attempt (touches_fetchOne _ _)) fun x => ?_
    rcases x with e | r
    · exact touches_execute (by simp [DbWrite.table])
    · exact touches_bind (touches_answer _) fun _ => touches_execute (by simp [DbWrite.table])
  · exact (u.newPasswordExpires_touches data rules).mono (by simp) (by simp)

theorem User.updateFields_touches (upd : UpdateUserRequest) :
    Touches [.recentPasswords] [(.c12hr, .policy), (.c12hr, .roles), (.c12hr, .groups)]
      (User.updateFields data u upd) := by
  refine touches_bind ?_ fun _ => ?_
  · unfold User.updatePassword
    split
    · exact (User.applyPasswordRules_touches _).mono (by simp) (by simp)
    · exact touches_ret _
  · refine touches_bind ((Role.sanitize_touches _).mono (by simp) (by simp)) fun _ => ?_
    exact touches_bind ((Group.sanitize_touches _).mono (by simp) (by simp)) fun _ => touches_ret _

theorem User.updateFields_keeps {v : User}
    (hx : Exec semUp (User.updateFields data u upd) w (.ok v) w') :
    v.id = u.id ∧ v.createdAt = u.createdAt ∧ v.email = data.toLowercase upd.email := by
  obtain ⟨u₁, w₁, hpwd, hx⟩ := exec_bind_ok.mp hx
  obtain ⟨roles, w₂, -, hx⟩ := exec_bind_ok.mp hx
  obtain ⟨groups, w₃, -, hx⟩ := exec_bind_ok.mp hx
  obtain ⟨hv, -⟩ := hx
  cases hv
  suffices h : u₁.id = u.id ∧ u₁.createdAt = u.createdAt ∧ u₁.email = data.toLowercase upd.email by
    exact h
  unfold User.updatePassword at hpwd
  split at hpwd
  · obtain ⟨_, _, -, hpwd⟩ := exec_bind_ok.mp hpwd
    obtain ⟨_, _, -, hpwd⟩ := exec_bind_ok.mp hpwd
    obtain ⟨_, _, -, hpwd⟩ := exec_bind_ok.mp hpwd
    obtain ⟨_, _, -, hpwd⟩ := exec_bind_ok.mp hpwd
    obtain ⟨_, _, -, hpwd⟩ := exec_bind_ok.mp hpwd
    cases hpwd.1
    exact ⟨rfl, rfl, rfl⟩
  · cases hpwd.1
    exact ⟨rfl, rfl, rfl⟩

theorem Coherent.saveRow (h : Coherent data w) {r : User} (hr : r ∈ w.db .users) (hid : u.id = r.id)
    (hcreated : u.createdAt = r.createdAt) (hemail : u.email = r.email) :
    Outcomes semUp (u.save data none) w fun _ w' => Coherent data w' := by
  refine h.save ⟨?_, r, hr, hid.symm, hcreated.symm, hemail⟩
  rw [hemail]
  exact h.table.email r hr

theorem Coherent.convertToPasskey (h : Coherent data w) (id : String) :
    Outcomes semUp (User.convertToPasskey data id) w fun _ w' => Coherent data w' := by
  refine outcomes_bind (outcomes_mono (h.find id) fun r w₁ hr => ?_)
  obtain ⟨h₁, hdb, hmem, -⟩ := hr
  rcases r with e | user
  · exact h₁
  have huser : user ∈ w₁.db .users := hdb ▸ hmem user rfl
  refine outcomes_bind (outcomes_throwIf (fun _ => ?_) fun _ => h₁)
  refine outcomes_bind (outcomes_throwIf (fun _ => ?_) fun _ => h₁)
  have hpks : Touches [] [(.webauthn, .passkeys)] (PasskeyEntity.findForUserWithUv user.id) :=
    touches_cached (touches_select _ _) (by simp [CacheVal.slot])
  refine outcomes_bind fun r w₂ hx => ?_
  have hf := hpks.frame hx.of_answering
  have h₂ := h₁.frame hf (by simp) (by simp)
  rcases r with e | pks
  · exact h₂
  have huser₂ : user ∈ w₂.db .users := hf.db .users (by simp) ▸ huser
  refine outcomes_bind (outcomes_throwIf (fun _ => ?_) fun _ => h₂)
  exact h₂.saveRow huser₂ rfl rfl rfl

theorem Coherent.providerUnlink (h : Coherent data w) (id : String) :
    Outcomes semUp (User.providerUnlink data id) w fun _ w' => Coherent data w' := by
  refine outcomes_bind (outcomes_mono (h.find id) fun r w₁ hr => ?_)
  obtain ⟨h₁, hdb, hmem, -⟩ := hr
  rcases r with e | user
  · exact h₁
  have huser : user ∈ w₁.db .users := hdb ▸ hmem user rfl
  refine outcomes_bind (outcomes_throwIf (fun _ => ?_) fun _ => h₁)
  refine outcomes_bind (outcomes_mono (h₁.saveRow huser rfl rfl rfl) fun r w₂ h₂ => ?_)
  rcases r with e | ⟨⟩
  · exact h₂
  · exact outcomes_ret h₂

theorem Coherent.updateValues (h : Coherent data w) (id : String) (values : Option UserValuesRequest) :
    Outcomes semUp (User.updateValues id values) w fun _ w' => Coherent data w' := by
  rcases values with - | values
  · exact outcomes_ret h
  refine outcomes_bind (answered_execute fun db hdb => ?_)
  have hrows : db .users = w.db .users := applyAll_frame hdb (by simp [DbWrite.table])
  refine outcomes_bind (answered_cachePut (outcomes_ret ?_))
  refine .of_rows h.table (fun k v hk hv => ?_) hrows
  rw [World.put_cache, if_neg fun he => cacheIdx_ne_values k id he.2] at hv
  exact h.copies k v hk hv

theorem Coherent.update (h : Coherent data w) {id : String} {user : Option User}
    (hmail : MailOk data (data.toLowercase upd.email))
    (huser : ∀ u, user = some u → u ∈ w.db .users) :
    Outcomes semUp (User.update data id upd user) w fun _ w' => Coherent data w' := by
  have hfind : Outcomes semUp (User.findUnless id user) w fun r w' => Coherent data w' ∧
      ∀ u, r = .ok u → u ∈ w'.db .users := by
    rcases user with - | u
    · refine outcomes_mono (h.find id) fun r w' hr => ⟨hr.1, fun u hu => ?_⟩
      rw [hr.2.1]
      exact hr.2.2.1 u hu
    · refine outcomes_ret ⟨h, fun v hv => ?_⟩
      cases hv
      exact huser u rfl
  refine outcomes_bind (outcomes_mono hfind fun r w₁ hr => ?_)
  obtain ⟨h₁, hmem⟩ := hr
  rcases r with e | old
  · exact h₁
  refine outcomes_bind fun r w₂ hx => ?_
  have hf := (User.updateFields_touches upd).frame hx.of_answering
  have h₂ := h₁.frame hf (by simp) (by simp)
  have hold : old ∈ w₂.db .users := hf.db .users (by simp) ▸ hmem old rfl
  rcases r with e | user
  · exact h₂
  obtain ⟨hid, hcreated, hemail⟩ := User.updateFields_keeps hx
  have hs : SavesCopy data (w₂.db .users) user
      (if old.email ≠ user.email then some old.email else none) := by
    refine ⟨hemail ▸ hmail, old, hold, hid.symm, hcreated.symm, ?_⟩
    by_cases he : old.email = user.email
    · rw [if_neg (not_not.mpr he)]
      exact he.symm
    · rw [if_pos he]
  refine outcomes_bind (outcomes_mono (h₂.save hs) fun r w₃ h₃ => ?_)
  rcases r with e | ⟨⟩
  · exact h₃
  refine outcomes_bind (outcomes_mono (h₃.of_touches (touches_runIf
    (Session.invalidateForUser_touches _)) (by simp) (by simp)) fun r w₄ h₄ => ?_)
  rcases r with e | ⟨⟩
  · exact h₄
  refine outcomes_bind (outcomes_mono (h₄.updateValues _ _) fun r w₅ h₅ => ?_)
  rcases r with e | values
  · exact h₅
  · exact outcomes_ret h₅

/-- **One operation** that is clean keeps the copies right. -/
theorem Coherent.step (h : Coherent data w) {o : UserOp} (ho : o.Clean data w) :
    Outcomes semUp (o.prog data) w fun _ w' => Coherent data w' := by
  cases o with
  | find id => exact outcomes_unit (outcomes_mono (h.find id) fun _ _ hr => hr.1)
  | findByEmail email => exact outcomes_unit (outcomes_mono (h.findByEmail email) fun _ _ hr => hr.1)
  | create newUser uri => exact outcomes_unit (h.create ho.1 ho.2 uri)
  | createFederated newUser => exact outcomes_unit (h.insert ho.1 ho.2)
  | save u oldEmail => exact h.save ho
  | saveTxn us rest => exact h.saveTxn ho.1 ho.2
  | update id upd user => exact outcomes_unit (h.update ho.1 ho.2)
  | updateLanguage u => exact h.updateLanguage ho
  | convertToPasskey id => exact h.convertToPasskey id
  | providerUnlink id => exact outcomes_unit (h.providerUnlink id)
  | delete u => exact h.delete ho
  | deleteProvider id => exact h.deleteProvider ho

end Steps

/-! ### Histories -/

theorem UserHistory.coherent {data : AppState} {w : World}
    (h : UserHistory data (fun w o => o.Clean data w) w) : Coherent data w := by
  induction h with
  | start htable hempty =>
      refine ⟨htable, fun k v _ hv => ?_⟩
      rw [hempty] at hv
      cases hv
  | step h hC hx ih => exact ih.step hC _ _ hx

/-- **After every history of clean operations** the lookups answer with the current rows,
whether they hit the cache or not. -/
theorem users_found {data : AppState} {w : World}
    (h : UserHistory data (fun w o => o.Clean data w) w) : FindsUsers data w :=
  h.coherent.finds

/-- alice, and nothing cached. -/
def aliceWorld : World where
  clock := 0
  issued := []
  db
    | .users => [sampleUser]
    | _ => []
  cache _ _ := none

theorem aliceWorld_table : TableOk sampleState (aliceWorld.db .users) where
  ids u hu v hv _ := by
    rw [List.mem_singleton.mp hu, List.mem_singleton.mp hv]
  emails u hu v hv _ := by
    rw [List.mem_singleton.mp hu, List.mem_singleton.mp hv]
  id u hu := by
    rw [List.mem_singleton.mp hu]
    decide
  email u hu := by
    rw [List.mem_singleton.mp hu]
    exact ⟨by decide, rfl⟩

theorem users_found_alice : ∃ w,
    UserHistory sampleState (fun w o => o.Clean sampleState w) w ∧ FindsUsers sampleState w := by
  obtain ⟨r, w, hx, -⟩ := exists_exec_semUp ((UserOp.find "alice").prog sampleState)
    [.miss, .ok, .ok] aliceWorld (fun r _ => r.isOk) (by decide +kernel)
  have h : UserHistory sampleState (fun w o => o.Clean sampleState w) w :=
    .step (o := .find "alice") (.start aliceWorld_table fun _ => rfl) trivial hx
  exact ⟨w, h, users_found h⟩

/-- alice has switched to German. -/
def aliceInGerman : User := { sampleUser with language := .de }

/-- After `update_language` the old user is still found. -/
theorem language_not_found :
    ¬ ∀ (data : AppState) (w : World), UserHistory data (fun _ _ => True) w → FindsUsers data w := by
  intro hall
  obtain ⟨r, w', hx, hr⟩ := exists_exec_semUp (do
      (UserOp.find "alice").prog sampleState
      (UserOp.updateLanguage aliceInGerman).prog sampleState
      User.find "alice")
    [.miss, .ok, .ok, .ok, .ok] aliceWorld
    (fun r w => r.toOption == some sampleUser && w.db .users == [aliceInGerman]) (by decide +kernel)
  rcases r with e | u
  · cases hr
  simp only [Bool.and_eq_true, beq_iff_eq] at hr
  obtain ⟨huser, hrow⟩ := hr
  obtain rfl := Option.some.inj huser
  obtain ⟨_, w₁, hx₁, hx⟩ := exec_bind_ok.mp hx
  obtain ⟨_, w₂, hx₂, hx₃⟩ := exec_bind_ok.mp hx
  have hfind := hall sampleState w₂ (.step (.step (.start aliceWorld_table fun _ => rfl) trivial hx₁)
    trivial hx₂)
  have hrows : w'.db .users = w₂.db .users :=
    ((User.find_touches "alice").frame hx₃.of_answering).db .users (by simp)
  have he := hfind.find "alice" (by decide) _ _ hx₃
  rw [← hrows, hrow] at he
  exact absurd he (by decide)

end Rauthy
