/-
Rauthy/Credentials.lean

What an account is left with to log in: a password, a link to an upstream provider, or a passkey
that a ceremony offers.  A conversion takes the password, an unlinking takes the provider, and a
deletion takes a passkey.

Which passkeys are offered depends on the rest of the account: one that has nothing but passkeys
needs user verification.  A conversion looks for such a passkey, in a list that may come from the
cache; an unlinking only looks at the flag of the user, and a deletion at the number of passkeys.

Main result: `credentials_kept_iff`, the states in which an operation leaves every account usable.
-/
import Rauthy.Passkeys
import Rauthy.PasswordChanges

namespace Rauthy

open Prog

/-! ### What a user can log in with -/

/-- The user is linked to an upstream provider. -/
def User.HasProvider (u : User) : Prop := u.authProviderId ≠ none ∧ u.federationUid ≠ none

/-- The user has a password, a provider, or a passkey that `auth_start` offers. -/
def User.CanLogIn (data : AppState) (u : User) (pks : List PasskeyEntity) : Prop :=
  u.password ≠ none ∨ u.HasProvider ∨ ∃ pk ∈ pks, passkeyFilter u.id (forceUv data u) pk = true

/-- The account with this id can be logged in to. -/
def Usable (data : AppState) (db : Db) (id : String) : Prop :=
  ∃ u ∈ db .users, u.id = id ∧ u.CanLogIn data (db .passkeys)

instance (data : AppState) (u : User) (pks : List PasskeyEntity) :
    Decidable (u.CanLogIn data pks) :=
  inferInstanceAs (Decidable (_ ∨ (_ ∧ _) ∨ ∃ _ ∈ pks, _))

instance (data : AppState) (db : Db) (id : String) : Decidable (Usable data db id) :=
  inferInstanceAs (Decidable (∃ _ ∈ db .users, _ ∧ _))

/-- Every account that could be logged in to still can. -/
def KeepsUsable (data : AppState) (w w' : World) : Prop :=
  ∀ id, Usable data w.db id → Usable data w'.db id

/-! ### The operations -/

inductive CredentialOp where
  | convertToPasskey (id : String)
  | providerUnlink (id : String)
  | deleteWebauthn (principal : Principal) (id name : String)

def CredentialOp.prog (data : AppState) : CredentialOp → M ErrorResponse Unit
  | convertToPasskey id => User.convertToPasskey data id
  | providerUnlink id => do let _ ← User.providerUnlink data id
  | deleteWebauthn principal id name => Rauthy.deleteWebauthn data principal id name

/-- The list may be found: it is cached, or it is that of the table. -/
def ServedPasskeys (w : World) (id : String) (uv : Bool) (pks : List PasskeyEntity) : Prop :=
  w.cache .webauthn (PasskeyEntity.cacheIdxUser id) = some (.passkeys pks) ∨
    pks = passkeysOf id uv w.db

/-- The user can be saved: it has no row, or no other row has its e-mail. -/
def Savable (w : World) (u : User) : Prop := (∃ r ∈ w.db .users, r.id = u.id) →
  ∀ r ∈ w.db .users, r.email = u.email → r.id = u.id

/-- The user has a passkey with user verification. -/
def HasVerified (db : Db) (id : String) : Prop :=
  ∃ pk ∈ db .passkeys, passkeyFilter id true pk = true

/-- The user has something to log in with besides the passkey of this name, where `uv` asks for user
verification. -/
def User.HasOther (u : User) (db : Db) (id name : String) (uv : Bool) : Prop :=
  u.password ≠ none ∨ u.HasProvider ∨
    ∃ pk ∈ db .passkeys, passkeyFilter u.id uv pk = true ∧ ¬ (pk.userId = id ∧ pk.name = name)

/-- The operation takes from no account the last thing to log in with. -/
def CredentialOp.Spared (data : AppState) (w : World) : CredentialOp → Prop
  -- the list that is looked at is not out of date
  | convertToPasskey id => ∀ u pks, ServedUser w id u → Savable w u →
      u.accountType = .password → u.hasWebauthnEnabled = true → ServedPasskeys w u.id true pks →
      pks ≠ [] → Usable data w.db u.id → HasVerified w.db u.id
  -- a user without a password has a passkey with user verification
  | providerUnlink id => ∀ u, ServedUser w id u → Savable w u →
      u.password = none → u.hasWebauthnEnabled = true → Usable data w.db u.id →
      HasVerified w.db u.id
  -- something else is left; without the flag the account is none that has nothing but passkeys
  | deleteWebauthn principal id name => checkDeleteWebauthn data principal id = .ok () →
      ∀ pks, ServedPasskeys w id false pks → ∀ r ∈ w.db .users, r.CanLogIn data (w.db .passkeys) →
        (2 ≤ pks.length → r.HasOther w.db id name (forceUv data r)) ∧
        (pks.length < 2 → ∀ u policy, ServedUser w id u → Savable w u → ServedPolicy w policy →
          if r.id = u.id then u.HasOther w.db id name data.webauthnForceUv
          else r.HasOther w.db id name (forceUv data r))

/-! ### Rows that are saved -/

/-- The row after `u` has been saved. -/
def savedRow (u r : User) : User :=
  if (r.id == u.id) = true then { u with id := r.id, createdAt := r.createdAt } else r

@[simp] theorem savedRow_id (u r : User) : (savedRow u r).id = r.id := by
  unfold savedRow
  split <;> rfl

section Rows

variable {data : AppState} {w w' : World} {u : User} {f : User → User} {pks : List PasskeyEntity}
  {db : Db}

theorem keepsUsable_map_iff (hid : UniqueKey User.id (w.db .users)) (hf : ∀ r, (f r).id = r.id)
    (hrows : w'.db .users = (w.db .users).map f) :
    KeepsUsable data w w' ↔ ∀ r ∈ w.db .users, r.CanLogIn data (w.db .passkeys) →
      (f r).CanLogIn data (w'.db .passkeys) := by
  constructor
  · intro h r hr hlog
    obtain ⟨u, hu, hru, hlog'⟩ := h r.id ⟨r, hr, rfl, hlog⟩
    rw [hrows] at hu
    obtain ⟨v, hv, rfl⟩ := List.mem_map.mp hu
    obtain rfl : v = r := hid.inj hv hr ((hf v).symm.trans hru)
    exact hlog'
  · rintro h id ⟨r, hr, rfl, hlog⟩
    refine ⟨f r, ?_, hf r, h r hr hlog⟩
    rw [hrows]
    exact List.mem_map_of_mem hr

theorem canLogIn_savedRow (r : User) : (savedRow u r).CanLogIn data pks ↔
    if r.id = u.id then u.CanLogIn data pks else r.CanLogIn data pks := by
  unfold savedRow
  by_cases he : r.id = u.id
  · rw [if_pos (beq_iff_eq.mpr he), if_pos he]
    unfold User.CanLogIn
    rw [← he]
    rfl
  · rw [if_neg (by simpa using he), if_neg he]

theorem keepsUsable_saved_iff (hid : UniqueKey User.id (w.db .users))
    (hrows : w'.db .users = (w.db .users).map (savedRow u))
    (hpks : w'.db .passkeys = w.db .passkeys) :
    KeepsUsable data w w' ↔ (Usable data w.db u.id → u.CanLogIn data (w.db .passkeys)) := by
  rw [keepsUsable_map_iff hid (savedRow_id u) hrows, hpks]
  constructor
  · rintro h ⟨r, hr, hru, hlog⟩
    have hsaved := (canLogIn_savedRow r).mp (h r hr hlog)
    rwa [if_pos hru] at hsaved
  · intro h r hr hlog
    rw [canLogIn_savedRow]
    split
    · next hru => exact h ⟨r, hr, hru, hlog⟩
    · exact hlog

/-- A user with nothing but passkeys needs user verification. -/
theorem canLogIn_iff_verified (hp : u.password = none) (hf : u.federationUid = none)
    (hw : u.hasWebauthnEnabled = true) : u.CanLogIn data (db .passkeys) ↔ HasVerified db u.id := by
  have htype : u.accountType = .passkey := by simp [User.accountType, hp, hf, hw]
  have huv : forceUv data u = true := by simp [forceUv, htype]
  rw [User.CanLogIn, huv]
  constructor
  · rintro (h | h | h)
    · exact absurd hp h
    · exact absurd hf h.2
    · exact h
  · exact fun h => .inr (.inr h)

theorem federationUid_of_password (h : u.accountType = .password) : u.federationUid = none := by
  rcases hf : u.federationUid with - | uid
  · rfl
  · simp only [User.accountType, hf, Option.isSome_some, Bool.true_and, if_true] at h
    split at h
    · cases h
    · split at h <;> cases h

theorem canLogIn_deleted {db' : Db} {id name : String} (hdb : db' .passkeys =
      (db .passkeys).filter fun r => !(r.userId == id && r.name == name)) :
    u.CanLogIn data (db' .passkeys) ↔ u.HasOther db id name (forceUv data u) := by
  rw [hdb, User.CanLogIn, User.HasOther]
  refine or_congr_right (or_congr_right (exists_congr fun pk => ?_))
  rw [List.mem_filter, and_assoc]
  refine and_congr_right fun _ => ?_
  rw [and_comm, Bool.not_eq_true', Bool.and_eq_false_iff, beq_eq_false_iff_ne, beq_eq_false_iff_ne,
    not_and_or]

/-- Two users with one e-mail cannot have been committed. -/
theorem savable_of_saved (hdb : db .users = (w.db .users).map (savedRow u))
    (hunique : UniqueEmails db) : Savable w u := by
  rintro ⟨r, hr, hru⟩ v hv he
  by_contra hne
  have hnodup : ((w.db .users).map (User.email ∘ savedRow u)).Nodup := by
    rw [← List.map_map, ← hdb]
    exact hunique
  have hsaved : (savedRow u r).email = u.email := by simp [savedRow, hru]
  have hkept : savedRow u v = v := by simp [savedRow, hne]
  have hsame : v = r := List.inj_on_of_nodup_map hnodup hv hr (by
    rw [Function.comp_apply, Function.comp_apply, hkept, hsaved, he])
  exact hne (hsame ▸ hru)

theorem uniqueEmails_of_savable (hid : UniqueKey User.id (w.db .users)) (hemail : UniqueEmails w.db)
    (hu : Savable w u) (hdb : db .users = (w.db .users).map (savedRow u)) : UniqueEmails db := by
  by_cases hrow : ∃ r ∈ w.db .users, r.id = u.id
  · have hcommits := (commits_saveStmt hid hemail (hu hrow)).unique hemail
    rw [UniqueEmails, Function.update_self] at hcommits
    rw [UniqueEmails, hdb]
    exact hcommits
  · have hkept : (w.db .users).map (savedRow u) = w.db .users := by
      refine (List.map_congr_left fun r hr => ?_).trans (List.map_id' _)
      have hne : r.id ≠ u.id := fun he => hrow ⟨r, hr, he⟩
      simp [savedRow, hne]
    rw [UniqueEmails, hdb, hkept]
    exact hemail

end Rows

/-! ### What the operations do -/

/-- Neither the users nor the passkeys have changed. -/
def SameAccounts (w w' : World) : Prop :=
  w'.db .users = w.db .users ∧ w'.db .passkeys = w.db .passkeys

section Effects

variable {α β : Type} {data : AppState} {w w' : World} {u : User}
  {r : Except (Fault ErrorResponse) Unit}
  {cs : List (CacheName × Slot)} {pks : List PasskeyEntity}

theorem SameAccounts.trans {w₁ w₂ w₃ : World} (h : SameAccounts w₁ w₂) (h' : SameAccounts w₂ w₃) :
    SameAccounts w₁ w₃ := ⟨h'.1.trans h.1, h'.2.trans h.2⟩

theorem SameAccounts.usable (h : SameAccounts w w') (id : String) :
    Usable data w'.db id ↔ Usable data w.db id := by
  rw [Usable, Usable, h.1, h.2]

theorem SameAccounts.savable (h : SameAccounts w w') : Savable w' u ↔ Savable w u := by
  rw [Savable, Savable, h.1]

theorem SameAccounts.keeps (h : SameAccounts w w') : KeepsUsable data w w' :=
  fun id => (h.usable id).mpr

theorem sameAccounts_of_touches {ts : List Table} {p : M ErrorResponse α}
    {r : Except (Fault ErrorResponse) α} (hp : Touches ts cs p) (hx : Exec sem p w r w')
    (hu : Table.users ∉ ts) (hpk : Table.passkeys ∉ ts) :
    SameAccounts w w' :=
  ⟨(hp.frame hx).db .users hu, (hp.frame hx).db .passkeys hpk⟩

/-- A first part that touches no account: it fails, or the rest goes on from the same accounts. -/
theorem SameAccounts.bind {ts : List Table} {p : M ErrorResponse α} {f : α → M ErrorResponse β}
    {r : Except (Fault ErrorResponse) β} (hp : Touches ts cs p)
    (hts : Table.users ∉ ts ∧ Table.passkeys ∉ ts) (hx : Exec sem (p >>= f) w r w') :
    SameAccounts w w' ∨
      ∃ a w₁, Exec sem p w (.ok a) w₁ ∧ SameAccounts w w₁ ∧ Exec sem (f a) w₁ r w' := by
  rcases exec_bind.mp hx with ⟨e, -, he⟩ | ⟨a, w₁, ha, hrest⟩
  · exact .inl (sameAccounts_of_touches hp he hts.1 hts.2)
  · exact .inr ⟨a, w₁, ha, sameAccounts_of_touches hp ha hts.1 hts.2, hrest⟩

theorem exec_throwIf_bind {c : Prop} [Decidable c] {e : Fault ErrorResponse}
    {f : Unit → M ErrorResponse β} {r : Except (Fault ErrorResponse) β}
    (hx : Exec sem (throwIf c e >>= f) w r w') : w' = w ∨ ¬ c ∧ Exec sem (f ()) w r w' := by
  rcases exec_bind.mp hx with ⟨e', -, he⟩ | ⟨⟨⟩, w₁, hthrow, hrest⟩
  · exact .inl (exec_throwIf.mp he).2
  · obtain ⟨hne, rfl⟩ := exec_throwIf_ok.mp hthrow
    exact .inr ⟨hne, hrest⟩

/-- The statements have taken effect, or nothing has happened. -/
theorem exec_execute_db {ss : List DbWrite} (hx : Exec sem (execute ss) w r w') :
    w' = w ∨ ∃ db, Commits ss w.db db ∧ w' = { w with db } := by
  obtain ⟨x, w₁, hsem, hans⟩ := exec_call.mp hx
  have hw : w' = w₁ := by
    cases x with
    | ok a => exact (exec_ret.mp hans).2
    | error e => exact (exec_fail.mp hans).2
  subst hw
  rcases sem_execute.mp hsem with ⟨e, -, rfl⟩ | ⟨db, hdb, rfl⟩
  · exact .inl rfl
  · exact .inr ⟨db, hdb, rfl⟩

theorem ServedPasskeys.of_exec {id : String} {uv : Bool}
    (h : Exec sem (passkeysFor uv id) w (.ok pks) w') : ServedPasskeys w id uv pks := by
  rw [passkeysFor_eq] at h
  rcases exec_cached h with ⟨v, hv, hpks, -⟩ | ⟨w₁, w₂, hw₁, hload, -⟩
  · rw [CacheVal.passkeys?_eq_some.mp hpks] at hv
    exact .inl hv
  · have hdb : w₁.db = w.db := by
      rcases hw₁ with rfl | rfl
      · rfl
      · rfl
    have hrows := (exec_select.mp hload).1
    rw [hdb] at hrows
    exact .inr hrows

theorem ServedPasskeys.exec {id : String} {uv : Bool} (h : ServedPasskeys w id uv pks) :
    ∃ w', Exec sem (passkeysFor uv id) w (.ok pks) w' ∧ w'.db = w.db := by
  rw [passkeysFor_eq]
  rcases h with h | h
  · exact ⟨w, exec_cached_hit h rfl, rfl⟩
  · have hload : Exec sem (select .passkeys (passkeyFilter id uv))
        (w.del .webauthn (PasskeyEntity.cacheIdxUser id)) (.ok pks)
        (w.del .webauthn (PasskeyEntity.cacheIdxUser id)) := exec_select.mpr ⟨h, rfl⟩
    exact ⟨_, exec_cached_load hload, rfl⟩

theorem rows_of_commits {db : Db} (h : Commits [u.saveStmt] w.db db) :
    db .users = (w.db .users).map (savedRow u) ∧ db .passkeys = w.db .passkeys := by
  obtain rfl := Option.some.inj h.applied
  exact ⟨rfl, rfl⟩

/-- A save fails before its statement, or the row of the user is written. -/
theorem save_accounts (hx : Exec sem (User.save data u none) w r w') : SameAccounts w w' ∨
      w'.db .users = (w.db .users).map (savedRow u) ∧ w'.db .passkeys = w.db .passkeys ∧
      (UniqueEmails w.db → UniqueEmails w'.db) := by
  have hx : Exec sem (execute [u.saveStmt] >>= fun _ => u.saveCached none) w r w' := hx
  rcases exec_bind.mp hx with ⟨e, -, he⟩ | ⟨_, w₁, hexec, hcached⟩
  · rcases exec_execute_db he with rfl | ⟨db, hdb, rfl⟩
    · exact .inl ⟨rfl, rfl⟩
    · obtain ⟨husers, hpks⟩ := rows_of_commits hdb
      exact .inr ⟨husers, hpks, hdb.unique⟩
  · obtain ⟨db, hdb, rfl⟩ := exec_execute.mp hexec
    obtain ⟨husers, hpks⟩ := rows_of_commits hdb
    obtain ⟨husers', hpks'⟩ := sameAccounts_of_touches (u.saveCached_touches none) hcached (by simp)
      (by simp)
    refine .inr ⟨husers'.trans husers, hpks'.trans hpks, fun h => ?_⟩
    rw [UniqueEmails, husers']
    exact hdb.unique h

theorem exists_saved (hid : UniqueKey User.id (w.db .users)) (hemail : UniqueEmails w.db)
    (hu : Savable w u) : ∃ w', Exec sem (User.save data u none) w (.ok ()) w' ∧
      w'.db .users = (w.db .users).map (savedRow u) ∧ w'.db .passkeys = w.db .passkeys := by
  have hcommits : Commits [u.saveStmt] w.db (Function.update w.db .users
      ((w.db .users).map (savedRow u))) :=
    ⟨rfl, fun _ => uniqueEmails_of_savable hid hemail hu (Function.update_self ..)⟩
  obtain ⟨⟨⟩, w', hcached, -, -⟩ := u.canAnswer_saveCached none { w with db := _ }
  have hx : Exec sem (execute [u.saveStmt] >>= fun _ => u.saveCached none) w (.ok ()) w' :=
    exec_bind_ok.mpr ⟨(), _, exec_execute.mpr ⟨_, hcommits, rfl⟩, hcached⟩
  obtain ⟨husers, hpks⟩ := rows_of_commits hcommits
  obtain ⟨husers', hpks'⟩ := sameAccounts_of_touches (u.saveCached_touches none) hcached (by simp)
    (by simp)
  exact ⟨w', hx, husers'.trans husers, hpks'.trans hpks⟩

theorem save_keepsUsable (hid : UniqueKey User.id (w.db .users)) (hemail : UniqueEmails w.db)
    (h : Savable w u → Usable data w.db u.id → u.CanLogIn data (w.db .passkeys))
    (hx : Exec sem (User.save data u none) w r w') : KeepsUsable data w w' := by
  rcases save_accounts hx with hsame | ⟨husers, hpks, hunique⟩
  · exact hsame.keeps
  · exact (keepsUsable_saved_iff hid husers hpks).mpr
      (h (savable_of_saved husers (hunique hemail)))

end Effects

/-! ### One operation -/

section Operations

variable {data : AppState} {w w' : World} {r : Except (Fault ErrorResponse) Unit}
  {w₁ : World} {u : User} {id name : String} {pks : List PasskeyEntity} {principal : Principal}

theorem KeepsUsable.of_same (h : SameAccounts w w₁) (hk : KeepsUsable data w₁ w') :
    KeepsUsable data w w' := fun id hu => hk id (h.keeps id hu)

theorem SameAccounts.save_keeps (h : SameAccounts w w₁) (hid : UniqueKey User.id (w.db .users))
    (hemail : UniqueEmails w.db) (hx : Exec sem (User.save data u none) w₁ r w')
    (hlog : Savable w u → Usable data w.db u.id → u.CanLogIn data (w.db .passkeys)) :
    KeepsUsable data w w' := by
  refine .of_same h (save_keepsUsable ?_ ?_ (fun hw husable => ?_) hx)
  · rw [h.1]
    exact hid
  · rw [UniqueEmails, h.1]
    exact hemail
  · rw [h.2]
    exact hlog (h.savable.mp hw) ((h.usable _).mp husable)

/-- A conversion stops before it saves, or it saves a user without its password. -/
theorem convertToPasskey_cases (hx : Exec sem (User.convertToPasskey data id) w r w') :
    SameAccounts w w' ∨
      ∃ u pks w₁, ServedUser w id u ∧ u.accountType = .password ∧ u.hasWebauthnEnabled = true ∧
        ServedPasskeys w u.id true pks ∧ pks ≠ [] ∧ SameAccounts w w₁ ∧
        Exec sem (User.save data { u with password := none, passwordExpires := none } none) w₁ r
          w' := by
  rcases SameAccounts.bind (User.find_touches id) (by simp) hx with hsame | ⟨u, w₁, hfind, h₁, hx⟩
  · exact .inl hsame
  rcases exec_throwIf_bind hx with rfl | ⟨htype, hx⟩
  · exact .inl h₁
  rcases exec_throwIf_bind hx with rfl | ⟨hflag, hx⟩
  · exact .inl h₁
  rcases SameAccounts.bind (passkeysFor_touches true u.id) (by simp) hx
    with hsame | ⟨pks, w₂, hpks, h₂, hx⟩
  · exact .inl (h₁.trans hsame)
  rcases exec_throwIf_bind hx with rfl | ⟨hsome, hx⟩
  · exact .inl (h₁.trans h₂)
  have hserved : ServedPasskeys w u.id true pks := by
    have hs := ServedPasskeys.of_exec hpks
    rwa [ServedPasskeys, (User.find_spares (by decide) id).cache hfind, passkeysOf, h₁.2] at hs
  exact .inr ⟨u, pks, w₂, .of_exec hfind, not_not.mp htype, by simpa using hflag, hserved,
    by simpa using hsome, h₁.trans h₂, hx⟩

theorem convert_keeps (hid : UniqueKey User.id (w.db .users)) (hemail : UniqueEmails w.db)
    (h : (CredentialOp.convertToPasskey id).Spared data w)
    (hx : Exec sem (User.convertToPasskey data id) w r w') : KeepsUsable data w w' := by
  rcases convertToPasskey_cases hx with
    hsame | ⟨u, pks, w₁, hu, htype, hflag, hpks, hsome, h₁, hsave⟩
  · exact hsame.keeps
  refine h₁.save_keeps hid hemail hsave fun hw husable => ?_
  have hunlinked : u.federationUid = none := federationUid_of_password htype
  refine (canLogIn_iff_verified (u := { u with password := none, passwordExpires := none }) rfl
    hunlinked hflag).mpr ?_
  exact h u pks hu hw htype hflag hpks hsome husable

/-- An unlinking stops before it saves, or it saves a user without its provider. -/
theorem providerUnlink_cases (hx : Exec sem (CredentialOp.prog data (.providerUnlink id)) w r w') :
    SameAccounts w w' ∨
      ∃ u w₁ r₁, ServedUser w id u ∧ ¬ (u.password = none ∧ ¬ u.hasWebauthnEnabled) ∧
        SameAccounts w w₁ ∧
        Exec sem (User.save data { u with authProviderId := none, federationUid := none } none) w₁
          r₁ w' := by
  have hlast : ∀ {r : Except (Fault ErrorResponse) User},
      Exec sem (User.providerUnlink data id) w r w' → SameAccounts w w' ∨
        ∃ u w₁ r₁, ServedUser w id u ∧ ¬ (u.password = none ∧ ¬ u.hasWebauthnEnabled) ∧
          SameAccounts w w₁ ∧
          Exec sem (User.save data { u with authProviderId := none, federationUid := none } none) w₁
            r₁ w' := by
    intro r hx
    rcases SameAccounts.bind (User.find_touches id) (by simp) hx with hsame | ⟨u, w₁, hfind, h₁, hx⟩
    · exact .inl hsame
    rcases exec_throwIf_bind hx with rfl | ⟨hleft, hx⟩
    · exact .inl h₁
    rcases exec_bind.mp hx with ⟨e, -, he⟩ | ⟨⟨⟩, w₂, hsave, hret⟩
    · exact .inr ⟨u, w₁, _, .of_exec hfind, by simpa using hleft, h₁, he⟩
    · obtain ⟨-, rfl⟩ := exec_ret.mp hret
      exact .inr ⟨u, w₁, _, .of_exec hfind, by simpa using hleft, h₁, hsave⟩
  rcases exec_bind.mp hx with ⟨e, -, he⟩ | ⟨u, w₁, hu, hret⟩
  · exact hlast he
  · obtain ⟨-, rfl⟩ := exec_ret.mp hret
    exact hlast hu

theorem unlink_keeps (hid : UniqueKey User.id (w.db .users)) (hemail : UniqueEmails w.db)
    (h : (CredentialOp.providerUnlink id).Spared data w)
    (hx : Exec sem (CredentialOp.prog data (.providerUnlink id)) w r w') :
    KeepsUsable data w w' := by
  rcases providerUnlink_cases hx with hsame | ⟨u, w₁, r₁, hu, hleft, h₁, hsave⟩
  · exact hsame.keeps
  refine h₁.save_keeps hid hemail hsave fun hw husable => ?_
  by_cases hp : u.password = none
  · have hflag : u.hasWebauthnEnabled = true := by
      by_contra hno
      exact hleft ⟨hp, hno⟩
    exact (canLogIn_iff_verified (u := { u with authProviderId := none, federationUid := none }) hp
      rfl hflag).mpr (h u hu hw hp hflag husable)
  · exact .inl hp

/-- The statement for the deletion of a passkey. -/
def deleteStmt (id name : String) : DbWrite :=
  .delete .passkeys fun r => r.userId == id && r.name == name

/-- What a deletion does with the user that loses its last passkey. -/
def UnlinksPasskeys (w : World) (id : String) (pks : List PasskeyEntity) (upd : List DbWrite) :
    Prop :=
  2 ≤ pks.length ∧ upd = [] ∨ pks.length < 2 ∧ ∃ u policy expires, ServedUser w id u ∧
    ServedPolicy w policy ∧
    upd = [User.saveStmt { u with webauthnUserId := none, passwordExpires := expires }]

theorem unlinkPasskeys_touches (id : String) (pks : List PasskeyEntity) :
    Touches [.sessions, .refreshTokens] [(.users, .user), (.c12hr, .policy), (.sessions, .session)]
      (unlinkPasskeys id pks) := by
  unfold unlinkPasskeys
  split
  · refine touches_bind ((User.find_touches id).mono (by simp) (by simp)) fun u => ?_
    refine touches_bind (PasswordPolicy.find_touches.mono (by simp) (by simp)) fun policy => ?_
    refine touches_bind ((expiresByPolicy_touches policy u).mono (by simp) (by simp)) fun _ => ?_
    refine touches_bind ?_ fun _ => touches_ret _
    refine touches_bind (touches_execute (by simp)) fun _ => ?_
    exact touches_bind ((User.saveCached_touches _ none).mono (by simp) (by simp)) fun _ =>
      touches_ret _
  · exact touches_ret _

theorem saveTxn_ok {s : DbWrite} (hx : Exec sem u.saveTxn w (.ok s) w') :
    s = u.saveStmt := by
  obtain ⟨_, _, -, hx⟩ := exec_bind_ok.mp hx
  obtain ⟨_, _, -, hx⟩ := exec_bind_ok.mp hx
  exact Except.ok.inj (exec_ret.mp hx).1

theorem unlinkPasskeys_ok {upd : List DbWrite}
    (hx : Exec sem (unlinkPasskeys id pks) w (.ok upd) w') : UnlinksPasskeys w id pks upd := by
  unfold unlinkPasskeys at hx
  split at hx
  · next hlast =>
      obtain ⟨u, w₁, hfind, hx⟩ := exec_bind_ok.mp hx
      obtain ⟨policy, w₂, hpolicy, hx⟩ := exec_bind_ok.mp hx
      obtain ⟨expires, w₃, -, hx⟩ := exec_bind_ok.mp hx
      obtain ⟨stmt, w₄, hsave, hret⟩ := exec_bind_ok.mp hx
      cases saveTxn_ok hsave
      cases (exec_ret.mp hret).1
      refine .inr ⟨hlast, u, policy, expires, .of_exec hfind, ?_, rfl⟩
      have hserved := ServedPolicy.of_exec hpolicy
      rwa [ServedPolicy, (User.find_spares (by decide) id).cache hfind,
        ((User.find_touches id).frame hfind).db .passwordPolicy (by simp)] at hserved
  · next hmore =>
      cases (exec_ret.mp hx).1
      exact .inl ⟨not_lt.mp hmore, rfl⟩

theorem UnlinksPasskeys.congr {upd : List DbWrite} (h : UnlinksPasskeys w₁ id pks upd)
    (hdb : w₁.db = w.db) (husers : w₁.cache .users = w.cache .users)
    (hpolicy : w₁.cache .c12hr = w.cache .c12hr) :
    UnlinksPasskeys w id pks upd := by
  rcases h with h | ⟨hlast, u, policy, expires, hu, hp, rfl⟩
  · exact .inl h
  · rw [ServedUser, husers, hdb] at hu
    rw [ServedPolicy, hpolicy, hdb] at hp
    exact .inr ⟨hlast, u, policy, expires, hu, hp, rfl⟩

theorem deleteByIdName_touches (id name : String) :
    Touches [] [] (PasskeyEntity.deleteByIdName id name) := by
  refine touches_bind (touches_execute (by simp)) fun _ => ?_
  refine touches_bind (touches_cacheDel _ _) fun _ => ?_
  refine touches_bind (touches_cacheDel _ _) fun _ => ?_
  exact touches_bind (touches_cacheDel _ _) fun _ => touches_ret _

theorem deleteByIdName_spares {c : CacheName} (hc : CacheName.webauthn ≠ c) (id name : String) :
    Spares c (PasskeyEntity.deleteByIdName id name) := by
  refine spares_bind (spares_execute _) fun _ => spares_bind (spares_cacheDel hc _) fun _ => ?_
  refine spares_bind (spares_cacheDel hc _) fun _ => ?_
  exact spares_bind (spares_cacheDel hc _) fun _ => trivial

theorem findForUser_spares {c : CacheName} (hc : CacheName.webauthn ≠ c) (id : String) :
    Spares c (PasskeyEntity.findForUser id) := spares_cached hc (spares_select _ _)

theorem deleteByIdName_ok {s : DbWrite}
    (hx : Exec sem (PasskeyEntity.deleteByIdName id name) w (.ok s) w') :
    s = deleteStmt id name := by
  obtain ⟨_, _, -, hx⟩ := exec_bind_ok.mp hx
  obtain ⟨_, _, -, hx⟩ := exec_bind_ok.mp hx
  obtain ⟨_, _, -, hx⟩ := exec_bind_ok.mp hx
  obtain ⟨_, _, -, hx⟩ := exec_bind_ok.mp hx
  exact Except.ok.inj (exec_ret.mp hx).1

/-- A deletion stops before its commit, or it gets there with this list of passkeys. -/
theorem deleteWebauthn_cases (hx : Exec sem (deleteWebauthn data principal id name) w r w') :
    SameAccounts w w' ∨
      ∃ pks upd w₁, checkDeleteWebauthn data principal id = .ok () ∧
        ServedPasskeys w id false pks ∧ UnlinksPasskeys w id pks upd ∧ SameAccounts w w₁ ∧
        Exec sem (execute (deleteStmt id name :: upd)) w₁ r w' := by
  have hanswer : Touches [] [] (answer (checkDeleteWebauthn data principal id)) := touches_answer _
  rcases SameAccounts.bind hanswer (by simp) hx with hsame | ⟨⟨⟩, w₁, hcheck, -, hx₁⟩
  · exact .inl hsame
  obtain ⟨hok, rfl⟩ := exec_answer.mp hcheck
  rcases SameAccounts.bind (PasskeyEntity.findForUser_touches id) (by simp) hx₁
    with hsame | ⟨pks, w₂, hpks, h₂, hx₂⟩
  · exact .inl hsame
  have hbegin : Touches [] [] (execute []) := touches_execute (by simp)
  rcases SameAccounts.bind hbegin (by simp) hx₂ with hsame | ⟨⟨⟩, w₃, hbegun, h₃, hx₃⟩
  · exact .inl (h₂.trans hsame)
  rcases SameAccounts.bind (deleteByIdName_touches id name) (by simp) hx₃
    with hsame | ⟨del, w₄, hdel, h₄, hx₄⟩
  · exact .inl ((h₂.trans h₃).trans hsame)
  rcases SameAccounts.bind (unlinkPasskeys_touches id pks) (by simp) hx₄
    with hsame | ⟨upd, w₅, hupd, h₅, hx₅⟩
  · exact .inl (((h₂.trans h₃).trans h₄).trans hsame)
  have hserved : ServedPasskeys w₁ id false pks := .of_exec hpks
  refine .inr ⟨pks, upd, w₅, hok, hserved, ?_,
    ((h₂.trans h₃).trans h₄).trans h₅, ?_⟩
  · -- nothing on the way has touched what the user and the policy are found in
    refine (unlinkPasskeys_ok hupd).congr ?_ ?_ ?_
    · funext t
      rw [((deleteByIdName_touches id name).frame hdel).db t List.not_mem_nil,
        (hbegin.frame hbegun).db t List.not_mem_nil,
        ((PasskeyEntity.findForUser_touches id).frame hpks).db t List.not_mem_nil]
    · rw [(deleteByIdName_spares (by decide) id name).cache hdel, (spares_execute _).cache hbegun,
        (findForUser_spares (by decide) id).cache hpks]
    · rw [(deleteByIdName_spares (by decide) id name).cache hdel, (spares_execute _).cache hbegun,
        (findForUser_spares (by decide) id).cache hpks]
  · rw [deleteByIdName_ok hdel] at hx₅
    exact hx₅

/-- A user without the flag does not need user verification for its account type. -/
theorem forceUv_unlinked (u : User) (expires : Option Int) :
    forceUv data { u with webauthnUserId := none, passwordExpires := expires } =
      data.webauthnForceUv := by
  have htype : ({ u with webauthnUserId := none, passwordExpires := expires } : User).accountType ≠
      .passkey := by
    simp only [User.accountType, User.hasWebauthnEnabled, Option.isSome_none, Bool.and_false]
    by_cases hp : u.password.isSome = true <;> by_cases hf : u.federationUid.isSome = true <;>
      simp [hp, hf]
  simp [forceUv, htype]

theorem rows_of_deletion {db : Db} (h : Commits [deleteStmt id name] w.db db) :
    db .users = w.db .users ∧ db .passkeys =
      (w.db .passkeys).filter fun r => !(r.userId == id && r.name == name) := by
  obtain rfl := Option.some.inj h.applied
  exact ⟨rfl, rfl⟩

theorem rows_of_unlinking {db : Db} (h : Commits [deleteStmt id name, u.saveStmt] w.db db) :
    db .users = (w.db .users).map (savedRow u) ∧ db .passkeys =
      (w.db .passkeys).filter fun r => !(r.userId == id && r.name == name) := by
  obtain rfl := Option.some.inj h.applied
  exact ⟨rfl, rfl⟩

theorem delete_keeps (hid : UniqueKey User.id (w.db .users)) (hemail : UniqueEmails w.db)
    (h : (CredentialOp.deleteWebauthn principal id name).Spared data w)
    (hx : Exec sem (deleteWebauthn data principal id name) w r w') : KeepsUsable data w w' := by
  rcases deleteWebauthn_cases hx with hsame | ⟨pks, upd, w₁, hcheck, hpks, hupd, h₁, hx⟩
  · exact hsame.keeps
  rcases exec_execute_db hx with rfl | ⟨db, hdb, rfl⟩
  · exact h₁.keeps
  rcases hupd with ⟨hmany, rfl⟩ | ⟨hlast, u, policy, expires, hu, hpolicy, rfl⟩
  · obtain ⟨husers, hrest⟩ := rows_of_deletion hdb
    rw [h₁.1] at husers
    rw [h₁.2] at hrest
    have hrows : db .users = (w.db .users).map fun r => r := by rw [husers, List.map_id']
    refine (keepsUsable_map_iff hid (fun _ => rfl) hrows).mpr fun r hr hlog => ?_
    exact (canLogIn_deleted hrest).mpr ((h hcheck pks hpks r hr hlog).1 hmany)
  · obtain ⟨husers, hrest⟩ := rows_of_unlinking hdb
    rw [h₁.1] at husers
    rw [h₁.2] at hrest
    refine (keepsUsable_map_iff hid (savedRow_id _) husers).mpr fun r hr hlog => ?_
    rw [canLogIn_savedRow]
    have hsavable : Savable w u := by
      refine savable_of_saved (u := { u with webauthnUserId := none, passwordExpires := expires })
        husers (hdb.unique ?_)
      rw [UniqueEmails, h₁.1]
      exact hemail
    have hother := (h hcheck pks hpks r hr hlog).2 hlast u policy hu hsavable hpolicy
    split
    · next hru =>
        rw [if_pos hru] at hother
        refine (canLogIn_deleted hrest).mpr ?_
        rw [forceUv_unlinked]
        exact hother
    · next hne =>
        rw [if_neg hne] at hother
        exact (canLogIn_deleted hrest).mpr hother

/-- A save at the end of an operation that has changed nothing before. -/
theorem exists_saved_after (hdb : w₁.db = w.db) (hid : UniqueKey User.id (w.db .users))
    (hemail : UniqueEmails w.db) (hu : Savable w u) :
    ∃ w', Exec sem (User.save data u none) w₁ (.ok ()) w' ∧
      w'.db .users = (w.db .users).map (savedRow u) ∧ w'.db .passkeys = w.db .passkeys := by
  obtain ⟨w', hx, husers, hpks⟩ : ∃ w', Exec sem (User.save data u none) w₁ (.ok ()) w' ∧
      w'.db .users = (w₁.db .users).map (savedRow u) ∧ w'.db .passkeys = w₁.db .passkeys := by
    rw [← hdb] at hid hemail
    rw [Savable, ← hdb] at hu
    exact exists_saved hid hemail hu
  rw [hdb] at husers hpks
  exact ⟨w', hx, husers, hpks⟩

theorem spared_of_convert (hid : UniqueKey User.id (w.db .users)) (hemail : UniqueEmails w.db)
    (h : ∀ r w', Exec sem (User.convertToPasskey data id) w r w' →
      KeepsUsable data w w') : (CredentialOp.convertToPasskey id).Spared data w := by
  intro u pks hu hsavable htype hflag hpks hsome husable
  obtain ⟨w₁, hfind, hdb₁, -, -⟩ := hu.exec
  have hpks₁ : ServedPasskeys w₁ u.id true pks := by
    rw [ServedPasskeys, (User.find_spares (by decide) id).cache hfind, hdb₁]
    exact hpks
  obtain ⟨w₂, hlist, hdb₂⟩ := hpks₁.exec
  let u' : User := { u with password := none, passwordExpires := none }
  obtain ⟨w', hsave, husers, hrest⟩ := exists_saved_after (u := u') (hdb₂.trans hdb₁) hid hemail
    hsavable
  have hx : Exec sem (User.convertToPasskey data id) w (.ok ()) w' := by
    refine exec_bind_ok.mpr ⟨u, w₁, hfind, ?_⟩
    refine exec_bind_ok.mpr ⟨(), w₁, exec_throwIf_ok.mpr ⟨not_not.mpr htype, rfl⟩, ?_⟩
    refine exec_bind_ok.mpr ⟨(), w₁, exec_throwIf_ok.mpr ⟨by simp [hflag], rfl⟩, ?_⟩
    refine exec_bind_ok.mpr ⟨pks, w₂, hlist, ?_⟩
    exact exec_bind_ok.mpr ⟨(), w₂, exec_throwIf_ok.mpr ⟨by simpa using hsome, rfl⟩, hsave⟩
  have hlog := (keepsUsable_saved_iff hid husers hrest).mp (h _ _ hx) husable
  exact (canLogIn_iff_verified (u := u') rfl
    (federationUid_of_password htype : u.federationUid = none) hflag).mp hlog

theorem spared_of_unlink (hid : UniqueKey User.id (w.db .users)) (hemail : UniqueEmails w.db)
    (h : ∀ r w', Exec sem (CredentialOp.prog data (.providerUnlink id)) w r w' →
      KeepsUsable data w w') : (CredentialOp.providerUnlink id).Spared data w := by
  intro u hu hsavable hp hflag husable
  obtain ⟨w₁, hfind, hdb₁, -, -⟩ := hu.exec
  let u' : User := { u with authProviderId := none, federationUid := none }
  obtain ⟨w', hsave, husers, hrest⟩ := exists_saved_after (u := u') hdb₁ hid hemail hsavable
  have hx : Exec sem (CredentialOp.prog data (.providerUnlink id)) w (.ok ()) w' := by
    refine exec_bind_ok.mpr ⟨u', w', ?_, rfl, rfl⟩
    refine exec_bind_ok.mpr ⟨u, w₁, hfind, ?_⟩
    refine exec_bind_ok.mpr ⟨(), w₁, exec_throwIf_ok.mpr ⟨fun hno => ?_, rfl⟩, ?_⟩
    · rw [hflag] at hno
      cases hno.2
    · exact exec_bind_ok.mpr ⟨(), w', hsave, rfl, rfl⟩
  have hlog := (keepsUsable_saved_iff hid husers hrest).mp (h _ _ hx) husable
  exact (canLogIn_iff_verified (u := u') hp rfl hflag).mp hlog

theorem exists_deleteByIdName (w : World) (id name : String) :
    ∃ w', Exec sem (PasskeyEntity.deleteByIdName id name) w (.ok (deleteStmt id name)) w' := by
  have hanswer : CanAnswer (PasskeyEntity.deleteByIdName id name) := by
    refine canAnswer_bind (canAnswer_execute (by simp)) fun _ => ?_
    refine canAnswer_bind (canAnswer_cacheDel _ _) fun _ => ?_
    refine canAnswer_bind (canAnswer_cacheDel _ _) fun _ => ?_
    exact canAnswer_bind (canAnswer_cacheDel _ _) fun _ => canAnswer_ret _
  obtain ⟨s, w', hx, -, -⟩ := hanswer w
  cases deleteByIdName_ok hx
  exact ⟨w', hx⟩

theorem exists_deletion {F : List DbWrite → Prop}
    (hcheck : checkDeleteWebauthn data principal id = .ok ()) (hpks : ServedPasskeys w id false pks)
    (hupd : ∀ w₁, w₁.db = w.db → w₁.cache .users = w.cache .users →
      w₁.cache .c12hr = w.cache .c12hr → ∃ upd w₂,
        Exec sem (unlinkPasskeys id pks) w₁ (.ok upd) w₂ ∧ F upd)
    (hcommits : ∀ w₁ upd, SameAccounts w w₁ → F upd →
      ∃ db, Commits (deleteStmt id name :: upd) w₁.db db) :
    ∃ w₁ upd db, SameAccounts w w₁ ∧ F upd ∧ Commits (deleteStmt id name :: upd) w₁.db db ∧
      Exec sem (deleteWebauthn data principal id name) w (.ok ()) { w₁ with db } := by
  obtain ⟨w₁, hlist, hdb₁⟩ := hpks.exec
  obtain ⟨w₂, hdel⟩ := exists_deleteByIdName w₁ id name
  have hdb₂ : w₂.db = w₁.db := by
    funext t
    exact ((deleteByIdName_touches id name).frame hdel).db t List.not_mem_nil
  have hcache : ∀ {c : CacheName}, CacheName.webauthn ≠ c → w₂.cache c = w.cache c := fun hc =>
    ((deleteByIdName_spares hc id name).cache hdel).trans ((findForUser_spares hc id).cache hlist)
  obtain ⟨upd, w₃, hunlink, hF⟩ := hupd w₂ (hdb₂.trans hdb₁) (hcache (by decide))
    (hcache (by decide))
  have hsame : SameAccounts w w₃ := by
    have h₃ := sameAccounts_of_touches (unlinkPasskeys_touches id pks) hunlink (by simp) (by simp)
    rwa [SameAccounts, hdb₂, hdb₁] at h₃
  obtain ⟨db, hdb⟩ := hcommits w₃ upd hsame hF
  refine ⟨w₃, upd, db, hsame, hF, hdb, ?_⟩
  refine exec_bind_ok.mpr ⟨(), w, exec_answer.mpr ⟨hcheck, rfl⟩, ?_⟩
  refine exec_bind_ok.mpr ⟨pks, w₁, hlist, exec_bind_ok.mpr ⟨(), w₁, exec_begin_ok, ?_⟩⟩
  refine exec_bind_ok.mpr ⟨_, w₂, hdel, exec_bind_ok.mpr ⟨upd, w₃, hunlink, ?_⟩⟩
  exact exec_execute.mpr ⟨db, hdb, rfl⟩

theorem exists_expiresByPolicy (policy : PasswordPolicy) (u : User) (w : World) :
    ∃ expires, Exec sem (expiresByPolicy policy u) w (.ok expires) w := by
  unfold expiresByPolicy
  split
  · exact ⟨_, rfl, rfl⟩
  · split
    · exact ⟨_, exec_bind_ok.mpr ⟨_, w, exec_time, rfl, rfl⟩⟩
    · exact ⟨_, rfl, rfl⟩

theorem exists_unlinkPasskeys {policy : PasswordPolicy} (hlast : pks.length < 2)
    (hu : ServedUser w id u) (hpolicy : ServedPolicy w policy) :
    ∃ upd w', Exec sem (unlinkPasskeys id pks) w (.ok upd) w' ∧
      ∃ expires, upd =
        [User.saveStmt { u with webauthnUserId := none, passwordExpires := expires }] := by
  obtain ⟨w₁, hfind, hdb₁, -, -⟩ := hu.exec
  have hpolicy₁ : ServedPolicy w₁ policy := by
    rw [ServedPolicy, (User.find_spares (by decide) id).cache hfind, hdb₁]
    exact hpolicy
  obtain ⟨w₂, hrules, -, -, -⟩ := hpolicy₁.exec
  obtain ⟨expires, hexpires⟩ := exists_expiresByPolicy policy u w₂
  obtain ⟨stmt, w₃, hsave, -, -⟩ := User.canAnswer_saveTxn
    { u with webauthnUserId := none, passwordExpires := expires } w₂
  cases saveTxn_ok hsave
  refine ⟨_, w₃, ?_, expires, rfl⟩
  rw [unlinkPasskeys, if_pos hlast]
  refine exec_bind_ok.mpr ⟨u, w₁, hfind, exec_bind_ok.mpr ⟨policy, w₂, hrules, ?_⟩⟩
  exact exec_bind_ok.mpr ⟨expires, w₂, hexpires, exec_bind_ok.mpr ⟨_, w₃, hsave, rfl, rfl⟩⟩

theorem exists_nothingUnlinked (hmany : 2 ≤ pks.length) :
    ∃ upd w', Exec sem (unlinkPasskeys id pks) w (.ok upd) w' ∧ upd = [] := by
  refine ⟨[], w, ?_, rfl⟩
  rw [unlinkPasskeys, if_neg (not_lt.mpr hmany)]
  exact ⟨rfl, rfl⟩

theorem exists_unlinking {u' : User} (hid : UniqueKey User.id (w.db .users))
    (hemail : UniqueEmails w.db) (hu : Savable w u) (h₁ : SameAccounts w w₁) (hsame : u'.id = u.id)
    (hmail : u'.email = u.email) :
    ∃ db, Commits [deleteStmt id name, u'.saveStmt] w₁.db db := by
  refine ⟨_, rfl, fun _ => ?_⟩
  have hsavable : Savable w u' := by
    rw [Savable, hsame, hmail]
    exact hu
  exact uniqueEmails_of_savable hid hemail hsavable (by rw [← h₁.1]; rfl)

theorem spared_of_delete (hid : UniqueKey User.id (w.db .users)) (hemail : UniqueEmails w.db)
    (h : ∀ r w', Exec sem (deleteWebauthn data principal id name) w r w' → KeepsUsable data w w') :
    (CredentialOp.deleteWebauthn principal id name).Spared data w := by
  intro hcheck pks hpks r hr hlog
  constructor
  · intro hmany
    have hcommits : ∀ w₁ : World, ∀ upd, SameAccounts w w₁ → upd = [] →
        ∃ db, Commits (deleteStmt id name :: upd) w₁.db db := by
      intro w₁ upd _ hnil
      cases hnil
      exact ⟨_, .of_emails rfl rfl⟩
    obtain ⟨w₁, upd, db, hsame, rfl, hdb, hx⟩ := exists_deletion (F := fun upd => upd = []) hcheck
      hpks (fun _ _ _ _ => exists_nothingUnlinked hmany) hcommits
    obtain ⟨husers, hrest⟩ := rows_of_deletion hdb
    rw [hsame.1] at husers
    rw [hsame.2] at hrest
    have hrows : db .users = (w.db .users).map fun r => r := by rw [husers, List.map_id']
    exact (canLogIn_deleted hrest).mp
      ((keepsUsable_map_iff hid (fun _ => rfl) hrows).mp (h _ _ hx) r hr hlog)
  · intro hlast u policy hu hsavable hpolicy
    have hupd : ∀ w₁ : World, w₁.db = w.db → w₁.cache .users = w.cache .users →
        w₁.cache .c12hr = w.cache .c12hr → ∃ upd w₂,
          Exec sem (unlinkPasskeys id pks) w₁ (.ok upd) w₂ ∧ ∃ expires, upd =
            [User.saveStmt { u with webauthnUserId := none, passwordExpires := expires }] := by
      intro w₁ hdb₁ husers₁ hpolicy₁
      have hu₁ : ServedUser w₁ id u := by
        rw [ServedUser, husers₁, hdb₁]
        exact hu
      have hrules₁ : ServedPolicy w₁ policy := by
        rw [ServedPolicy, hpolicy₁, hdb₁]
        exact hpolicy
      exact exists_unlinkPasskeys hlast hu₁ hrules₁
    have hcommits : ∀ w₁ : World, ∀ upd, SameAccounts w w₁ → (∃ expires,
        upd = [User.saveStmt { u with webauthnUserId := none, passwordExpires := expires }]) →
          ∃ db, Commits (deleteStmt id name :: upd) w₁.db db := by
      rintro w₁ _ hsame ⟨expires, rfl⟩
      exact exists_unlinking hid hemail hsavable hsame rfl rfl
    obtain ⟨w₁, upd, db, hsame, ⟨expires, rfl⟩, hdb, hx⟩ :=
      exists_deletion hcheck hpks hupd hcommits
    obtain ⟨husers, hrest⟩ := rows_of_unlinking hdb
    rw [hsame.1] at husers
    rw [hsame.2] at hrest
    have hlogged := (keepsUsable_map_iff hid (savedRow_id _) husers).mp (h _ _ hx) r hr hlog
    rw [canLogIn_savedRow] at hlogged
    split
    · next hru =>
        rw [if_pos hru, canLogIn_deleted hrest, forceUv_unlinked] at hlogged
        exact hlogged
    · next hne =>
        rw [if_neg hne] at hlogged
        exact (canLogIn_deleted hrest).mp hlogged

/-! ### Operations one after the other -/

/-- An operation keeps the ids and, as the index does, the e-mails apart. -/
theorem CredentialOp.keeps_keys {op : CredentialOp} (hx : Exec sem (op.prog data) w r w')
    (hid : UniqueKey User.id (w.db .users)) (hemail : UniqueEmails w.db) :
    UniqueKey User.id (w'.db .users) ∧ UniqueEmails w'.db := by
  have hsame : ∀ {v v' : World}, v'.db .users = v.db .users →
      UniqueKey User.id (v.db .users) ∧ UniqueEmails v.db →
        UniqueKey User.id (v'.db .users) ∧ UniqueEmails v'.db := by
    intro v v' husers h
    rwa [UniqueEmails, husers]
  have hids : ∀ {rows : List User} (u : User), UniqueKey User.id rows →
      UniqueKey User.id (rows.map (savedRow u)) := by
    intro rows u h
    have hmap : (rows.map (savedRow u)).map User.id = rows.map User.id := by
      rw [List.map_map]
      exact List.map_congr_left fun r _ => savedRow_id u r
    rw [UniqueKey, hmap]
    exact h
  have hsaved : ∀ {v : World} {u : User} {r : Except (Fault ErrorResponse) Unit},
      SameAccounts w v → Exec sem (User.save data u none) v r w' →
        UniqueKey User.id (w'.db .users) ∧ UniqueEmails w'.db := by
    intro v u r hv hsave
    have hv' := hsame hv.1 ⟨hid, hemail⟩
    rcases save_accounts hsave with h | ⟨husers, -, hunique⟩
    · exact hsame h.1 hv'
    · rw [husers]
      exact ⟨hids u hv'.1, hunique hv'.2⟩
  cases op with
  | convertToPasskey id =>
      rcases convertToPasskey_cases hx with h | ⟨u, pks, w₁, -, -, -, -, -, h₁, hsave⟩
      · exact hsame h.1 ⟨hid, hemail⟩
      · exact hsaved h₁ hsave
  | providerUnlink id =>
      rcases providerUnlink_cases hx with h | ⟨u, w₁, r₁, -, -, h₁, hsave⟩
      · exact hsame h.1 ⟨hid, hemail⟩
      · exact hsaved h₁ hsave
  | deleteWebauthn principal id name =>
      rcases deleteWebauthn_cases hx with h | ⟨pks, upd, w₁, -, -, hupd, h₁, hx⟩
      · exact hsame h.1 ⟨hid, hemail⟩
      have hw₁ := hsame h₁.1 ⟨hid, hemail⟩
      rcases exec_execute_db hx with rfl | ⟨db, hdb, rfl⟩
      · exact hw₁
      refine ⟨?_, hdb.unique hw₁.2⟩
      rcases hupd with ⟨-, rfl⟩ | ⟨-, u, policy, expires, -, -, rfl⟩
      · rw [show ({ w₁ with db } : World).db .users = _ from (rows_of_deletion hdb).1]
        exact hw₁.1
      · rw [show ({ w₁ with db } : World).db .users = _ from (rows_of_unlinking hdb).1]
        exact hids _ hw₁.1

/-- **The condition is exact**: an operation can take the last thing to log in with from an account
where it is not met. -/
theorem CredentialOp.keeps_iff (op : CredentialOp) (hid : UniqueKey User.id (w.db .users))
    (hemail : UniqueEmails w.db) :
    (∀ r w', Exec sem (op.prog data) w r w' → KeepsUsable data w w') ↔ op.Spared data w := by
  cases op with
  | convertToPasskey id =>
      exact ⟨spared_of_convert hid hemail, fun h _ _ hx => convert_keeps hid hemail h hx⟩
  | providerUnlink id =>
      exact ⟨spared_of_unlink hid hemail, fun h _ _ hx => unlink_keeps hid hemail h hx⟩
  | deleteWebauthn principal id name =>
      exact ⟨spared_of_delete hid hemail, fun h _ _ hx => delete_keeps hid hemail h hx⟩

end Operations

/-- Operations one after the other, each in a state where it is allowed. -/
inductive CredentialRun (data : AppState) (C : World → CredentialOp → Prop) (w₀ : World) :
    World → Prop where
  | init : CredentialRun data C w₀ w₀
  | step {w w' : World} {op : CredentialOp} {r : Except (Fault ErrorResponse) Unit}
      (h : CredentialRun data C w₀ w) (hop : C w op) (hx : Exec sem (op.prog data) w r w') :
      CredentialRun data C w₀ w'

section Runs

variable {data : AppState} {C : World → CredentialOp → Prop} {w₀ w : World}

theorem CredentialRun.keys (h : CredentialRun data C w₀ w)
    (hid : UniqueKey User.id (w₀.db .users)) (hemail : UniqueEmails w₀.db) :
    UniqueKey User.id (w.db .users) ∧ UniqueEmails w.db := by
  induction h with
  | init => exact ⟨hid, hemail⟩
  | step _ _ hx ih => exact CredentialOp.keeps_keys hx ih.1 ih.2

theorem CredentialRun.keeps (h : CredentialRun data (fun w op => op.Spared data w) w₀ w)
    (hid : UniqueKey User.id (w₀.db .users)) (hemail : UniqueEmails w₀.db) :
    KeepsUsable data w₀ w := by
  induction h with
  | init => exact fun _ husable => husable
  | step hrun hop hx ih =>
      obtain ⟨hid', hemail'⟩ := hrun.keys hid hemail
      have hstep := (CredentialOp.keeps_iff _ hid' hemail').mpr hop _ _ hx
      exact fun id husable => hstep id (ih id husable)

end Runs

/-- **Nobody is locked out.**  Over any sequence of conversions, unlinkings and deletions of
passkeys an operation leaves every account usable, whatever its calls answer, if and only if the
accounts are spared; where that is so at every step, whoever could log in at the beginning still
can. -/
theorem credentials_kept_iff (data : AppState) (w₀ : World)
    (hid : UniqueKey User.id (w₀.db .users)) (hemail : UniqueEmails w₀.db) :
    (∀ w, CredentialRun data (fun _ _ => True) w₀ w → ∀ op : CredentialOp,
      (∀ r w', Exec sem (op.prog data) w r w' → KeepsUsable data w w') ↔ op.Spared data w) ∧
    ∀ w, CredentialRun data (fun w op => op.Spared data w) w₀ w → KeepsUsable data w₀ w := by
  refine ⟨fun w h op => ?_, fun w h => h.keeps hid hemail⟩
  obtain ⟨hid', hemail'⟩ := h.keys hid hemail
  exact op.keeps_iff hid' hemail'

/-- Alice has no password, is linked to a provider, and has a passkey with or without user
verification. -/
def linkedWorld (uv : Bool) : World where
  clock := 0
  issued := ["uuid"]
  db
    | .users => [{ sampleUser with
        password := none
        authProviderId := some "provider"
        federationUid := some "uid"
        webauthnUserId := some "uuid" }]
    | .passkeys => [samplePasskey "a" uv]
    | _ => []
  cache _ _ := none

/-- Alice loses her provider, and has the passkey left. -/
theorem credentials_kept_unlinked : ∃ w', Exec sem
    ((CredentialOp.providerUnlink "alice").prog sampleState) (linkedWorld true) (.ok ()) w' ∧
    (∀ u ∈ w'.db .users, ¬ u.HasProvider) ∧ KeepsUsable sampleState (linkedWorld true) w' ∧
    ∀ r w', Exec sem ((CredentialOp.providerUnlink "alice").prog sampleState) (linkedWorld true)
      r w' → KeepsUsable sampleState (linkedWorld true) w' := by
  obtain ⟨r, w', hx, hr⟩ := Pool.exists_exec_of_choices Op.run
    ((CredentialOp.providerUnlink "alice").prog sampleState)
    [.ok, .ok, .ok, .ok, .ok, .ok, .ok, .ok] (linkedWorld true)
    (fun r w' => r.isOk && (w'.db .users).all fun u => u.authProviderId.isNone) (by decide +kernel)
  obtain ⟨hok, hunlinked⟩ := Bool.and_eq_true_iff.mp hr
  have hspared : (CredentialOp.providerUnlink "alice").Spared sampleState (linkedWorld true) := by
    have hverified : HasVerified (linkedWorld true).db "alice" :=
      ⟨samplePasskey "a" true, List.mem_singleton.mpr rfl, by decide⟩
    rintro u (hu | hu) - - - -
    · cases hu
    · cases hu
      exact hverified
  obtain ⟨hone, hruns⟩ := credentials_kept_iff sampleState (linkedWorld true)
    (List.nodup_singleton _) (List.nodup_singleton _)
  rcases r with e | ⟨⟩
  · cases hok
  refine ⟨w', hx, fun u hu hp => ?_, hruns _ (.step .init hspared hx), (hone _ .init _).mpr hspared⟩
  exact hp.1 (Option.isNone_iff_eq_none.mp (List.all_eq_true.mp hunlinked u hu))

/-- Without its provider the account needs user verification, which its passkey does not give. -/
theorem unlinked_locked_out :
    ¬ ∀ (data : AppState) (op : CredentialOp) (w : World) (r : Except (Fault ErrorResponse) Unit)
      (w' : World), UniqueKey User.id (w.db .users) → UniqueEmails w.db →
      Exec sem (op.prog data) w r w' → KeepsUsable data w w' := by
  intro hall
  obtain ⟨r, w', hx, hr⟩ := Pool.exists_exec_of_choices Op.run
    ((CredentialOp.providerUnlink "alice").prog sampleState)
    [.ok, .ok, .ok, .ok, .ok, .ok, .ok, .ok] (linkedWorld false)
    (fun _ w' => decide (¬ Usable sampleState w'.db "alice")) (by decide +kernel)
  have hbefore : Usable sampleState (linkedWorld false).db "alice" := by decide
  exact of_decide_eq_true hr (hall sampleState _ (linkedWorld false) r w' (List.nodup_singleton _)
    (List.nodup_singleton _) hx "alice" hbefore)

end Rauthy
