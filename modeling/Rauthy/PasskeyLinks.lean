/-
Rauthy/PasskeyLinks.lean

The id under which the authenticators know a user.  It is stored with the user, as the flag that
there are passkeys at all, and with each passkey.

A registration chooses the id when it starts and stores it when it is finished, and a deletion
removes it with the last passkey.  Both decide from what they have read before, and a deletion
counts the passkeys before it knows whether there is one to delete.

Main results:
  * `links_registered_iff`, `links_deleted_iff`: when a commit leaves the users and their passkeys
    linked;
  * `passkeys_linked`: in every interleaving whose commits do, they are linked in every state.
-/
import Rauthy.Credentials
import Rauthy.LinkRaces

namespace Rauthy

open Prog Pool

/-! ### Users and their passkeys -/

/-- The user has the id of its passkeys, and has one if and only if there is a passkey. -/
structure User.Linked (u : User) (pks : List PasskeyEntity) : Prop where
  flag : u.webauthnUserId ≠ none ↔ ∃ pk ∈ pks, pk.userId = u.id
  same : ∀ pk ∈ pks, pk.userId = u.id → u.webauthnUserId = some pk.passkeyUserId

instance (u : User) (pks : List PasskeyEntity) : Decidable (u.Linked pks) :=
  decidable_of_iff ((u.webauthnUserId ≠ none ↔ ∃ pk ∈ pks, pk.userId = u.id) ∧
    ∀ pk ∈ pks, pk.userId = u.id → u.webauthnUserId = some pk.passkeyUserId)
    ⟨fun h => ⟨h.1, h.2⟩, fun h => ⟨h.flag, h.same⟩⟩

/-- All users are. -/
def LinksOk (db : Db) : Prop := ∀ u ∈ db .users, u.Linked (db .passkeys)

instance (db : Db) : Decidable (LinksOk db) :=
  inferInstanceAs (Decidable (∀ u ∈ db .users, u.Linked (db .passkeys)))

/-- There is a passkey with this user, and not of this name. -/
def HasAnother (db : Db) (id name uid : String) : Prop :=
  ∃ pk ∈ db .passkeys, pk.userId = uid ∧ ¬ (pk.userId = id ∧ pk.name = name)

instance (db : Db) (id name uid : String) : Decidable (HasAnother db id name uid) :=
  inferInstanceAs (Decidable (∃ pk ∈ db .passkeys, pk.userId = uid ∧
    ¬ (pk.userId = id ∧ pk.name = name)))

section Linked

variable {u : User} {pks : List PasskeyEntity} {pk : PasskeyEntity}

theorem linked_append_other (h : pk.userId ≠ u.id) : u.Linked (pks ++ [pk]) ↔ u.Linked pks := by
  have hmem : ∀ p, p ∈ pks ++ [pk] ∧ p.userId = u.id ↔ p ∈ pks ∧ p.userId = u.id := by
    intro p
    rw [List.mem_append, List.mem_singleton]
    constructor
    · rintro ⟨hp | rfl, hid⟩
      · exact ⟨hp, hid⟩
      · exact absurd hid h
    · exact fun hp => ⟨.inl hp.1, hp.2⟩
  constructor
  · intro hl
    exact ⟨hl.flag.trans (exists_congr hmem), fun p hp hid =>
      hl.same p (List.mem_append_left _ hp) hid⟩
  · intro hl
    exact ⟨hl.flag.trans (exists_congr hmem).symm, fun p hp hid =>
      hl.same p ((hmem p).mp ⟨hp, hid⟩).1 hid⟩

/-- With a passkey of its own the user has the id of this one and of all the others. -/
theorem linked_append_own (h : pk.userId = u.id) : u.Linked (pks ++ [pk]) ↔
    u.webauthnUserId = some pk.passkeyUserId ∧
      ∀ p ∈ pks, p.userId = u.id → u.webauthnUserId = some p.passkeyUserId := by
  constructor
  · intro hl
    exact ⟨hl.same pk (by simp) h, fun p hp => hl.same p (List.mem_append_left _ hp)⟩
  · rintro ⟨hnew, hold⟩
    refine ⟨iff_of_true (by simp [hnew]) ⟨pk, by simp, h⟩, fun p hp hid => ?_⟩
    rcases List.mem_append.mp hp with hp | hp
    · exact hold p hp hid
    · rw [List.mem_singleton.mp hp]
      exact hnew

variable {db : Db} {id name : String}

theorem exists_filter_iff {uid : String} :
    (∃ pk ∈ (db .passkeys).filter fun r => !(r.userId == id && r.name == name), pk.userId = uid) ↔
      HasAnother db id name uid := by
  refine exists_congr fun pk => ?_
  rw [List.mem_filter, and_assoc]
  refine and_congr_right fun _ => ?_
  rw [and_comm, Bool.not_eq_true', Bool.and_eq_false_iff, beq_eq_false_iff_ne, beq_eq_false_iff_ne,
    not_and_or]

theorem linked_filter (h : u.Linked (db .passkeys)) :
    u.Linked ((db .passkeys).filter fun r => !(r.userId == id && r.name == name)) ↔
      (u.webauthnUserId ≠ none → HasAnother db id name u.id) := by
  constructor
  · exact fun hl hflag => exists_filter_iff.mp (hl.flag.mp hflag)
  · intro hother
    refine ⟨⟨fun hflag => exists_filter_iff.mpr (hother hflag), ?_⟩, fun pk hpk =>
      h.same pk (List.mem_filter.mp hpk).1⟩
    rintro ⟨pk, hpk, hid⟩
    exact h.flag.mpr ⟨pk, (List.mem_filter.mp hpk).1, hid⟩

theorem linked_none (h : u.webauthnUserId = none) :
    u.Linked pks ↔ ¬ ∃ pk ∈ pks, pk.userId = u.id := by
  constructor
  · exact fun hl hpk => hl.flag.mpr hpk h
  · intro hno
    exact ⟨iff_of_false (not_not.mpr h) hno, fun pk hpk hid => absurd ⟨pk, hpk, hid⟩ hno⟩

end Linked

/-! ### The commits -/

/-- The statements of a registration for the user. -/
def linkStmts (data : AppState) (u : User) (uuid : String) : List DbWrite :=
  match u.webauthnUserId with
  | some _ => []
  | none => [(u.withPasskey data uuid).saveStmt]

/-- The row of a user after the registration. -/
def linkedRow (data : AppState) (u : User) (uuid : String) (r : User) : User :=
  match u.webauthnUserId with
  | some _ => r
  | none => savedRow (u.withPasskey data uuid) r

@[simp] theorem linkedRow_id (data : AppState) (u : User) (uuid : String) (r : User) :
    (linkedRow data u uuid r).id = r.id := by
  unfold linkedRow
  split
  · rfl
  · exact savedRow_id _ r

section Commits

variable {data : AppState} {w : World} {db : Db} {u : User}

theorem rows_of_registration {uuid : String} {pk : PasskeyEntity}
    (h : Commits (linkStmts data u uuid ++ [.insert .passkeys pk]) w.db db) :
    db .users = (w.db .users).map (linkedRow data u uuid) ∧
      db .passkeys = w.db .passkeys ++ [pk] := by
  have hinsert : ∀ {db₁ : Db}, applyAll [.insert .passkeys pk] db₁ = some db →
      db .users = db₁ .users ∧ db .passkeys = db₁ .passkeys ++ [pk] := by
    intro db₁ happ
    obtain ⟨db₂, hone, hnil⟩ := Option.bind_eq_some_iff.mp happ
    obtain rfl := Option.some.inj hnil
    simp only [DbWrite.apply] at hone
    split at hone
    · cases hone
    · cases hone
      exact ⟨rfl, rfl⟩
  have happ := h.applied
  rcases hu : u.webauthnUserId with - | id
  · rw [linkStmts, hu] at happ
    obtain ⟨husers, hpks⟩ := hinsert happ
    have hrow : linkedRow data u uuid = savedRow (u.withPasskey data uuid) := by
      funext r
      simp [linkedRow, hu]
    rw [hrow]
    exact ⟨husers, hpks⟩
  · rw [linkStmts, hu] at happ
    obtain ⟨husers, hpks⟩ := hinsert happ
    have hrow : linkedRow data u uuid = fun r => r := by
      funext r
      simp [linkedRow, hu]
    rw [hrow, List.map_id']
    exact ⟨husers, hpks⟩

/-- **A commit of a registration** leaves everybody linked if and only if the user that was read had
no id, and all passkeys of it have the new one, or the user has the new one already. -/
theorem links_registered_iff {uuid : String} {pk : PasskeyEntity} (hok : LinksOk w.db)
    (hpk : pk.userId = u.id) (huuid : pk.passkeyUserId = uuid)
    (h : Commits (linkStmts data u uuid ++ [.insert .passkeys pk]) w.db db) :
    LinksOk db ↔ ∀ r ∈ w.db .users, r.id = u.id →
      if u.webauthnUserId = none then
        ∀ p ∈ w.db .passkeys, p.userId = u.id → p.passkeyUserId = uuid
      else r.webauthnUserId = some uuid := by
  obtain ⟨husers, hpks⟩ := rows_of_registration h
  rw [LinksOk, husers, hpks, List.forall_mem_map]
  refine forall₂_congr fun r hr => ?_
  by_cases hru : r.id = u.id
  · have hown : pk.userId = (linkedRow data u uuid r).id := by rw [linkedRow_id, hpk, hru]
    rw [linked_append_own hown, huuid, forall_prop_of_true hru, linkedRow_id, hru]
    split
    · next hu =>
        have hnew : (linkedRow data u uuid r).webauthnUserId = some uuid := by
          simp [linkedRow, hu, savedRow, User.withPasskey, hru]
        rw [hnew]
        simp only [true_and, Option.some.injEq]
        exact forall₃_congr fun p _ _ => eq_comm
    · next hu =>
        obtain ⟨id, hid⟩ := Option.ne_none_iff_exists'.mp hu
        have hkept : linkedRow data u uuid r = r := by simp [linkedRow, hid]
        rw [hkept]
        refine and_iff_left_of_imp fun _ p hp hpid => (hok r hr).same p hp (hpid.trans hru.symm)
  · have hkept : linkedRow data u uuid r = r := by
      unfold linkedRow
      split
      · rfl
      · simp [savedRow, User.withPasskey, hru]
    have hother : pk.userId ≠ r.id := fun he => hru (he.symm.trans hpk)
    rw [hkept, linked_append_other hother]
    exact iff_of_true (hok r hr) fun he => absurd he hru

/-- **A commit of a deletion.** -/
theorem links_deleted_iff {id name : String} (hok : LinksOk w.db)
    (h : Commits [deleteStmt id name] w.db db) : LinksOk db ↔
      ∀ r ∈ w.db .users, r.webauthnUserId ≠ none → HasAnother w.db id name r.id := by
  obtain ⟨husers, hpks⟩ := rows_of_deletion h
  rw [LinksOk, husers, hpks]
  exact forall₂_congr fun r hr => linked_filter (hok r hr)

/-- **A commit of a deletion with the user.** -/
theorem links_unlinked_iff {id name : String} {expires : Option Int} (hok : LinksOk w.db)
    (h : Commits [deleteStmt id name,
      User.saveStmt { u with webauthnUserId := none, passwordExpires := expires }] w.db db) :
    LinksOk db ↔ ∀ r ∈ w.db .users, if r.id = u.id then ¬ HasAnother w.db id name r.id
      else r.webauthnUserId ≠ none → HasAnother w.db id name r.id := by
  obtain ⟨husers, hpks⟩ := rows_of_unlinking h
  rw [LinksOk, husers, hpks, List.forall_mem_map]
  refine forall₂_congr fun r hr => ?_
  split
  · next hru =>
      have hnone : (savedRow { u with webauthnUserId := none, passwordExpires := expires }
          r).webauthnUserId = none := by simp [savedRow, hru]
      rw [linked_none hnone, savedRow_id, exists_filter_iff]
  · next hne =>
      have hkept : savedRow
          { u with webauthnUserId := none, passwordExpires := expires } r = r := by
        simp [savedRow, hne]
      rw [hkept]
      exact linked_filter (hok r hr)

end Commits

/-! ### The calls -/

/-- The requests that register and delete passkeys. -/
inductive RegCall where
  | regStart (userId passkeyName : String)
  | regFinish (id passkeyName cred : String)
  | deleteWebauthn (principal : Principal) (id name : String)

/-- The call has taken this registration. -/
def HasTakenReg (reg : WebauthnReg) (tr : List (Seen Op Op.Res)) : Prop :=
  ∃ k, ⟨.cacheGet .webauthn k, .ok (some (.webauthnReg reg))⟩ ∈ tr

/-- The call has read this list of passkeys. -/
def HasReadPasskeys (id : String) (pks : List PasskeyEntity) (tr : List (Seen Op Op.Res)) : Prop :=
  ∃ s ∈ tr, ReadsPasskeys id false pks s

namespace RegCall

variable {tr : List (Seen Op Op.Res)}

def prog (data : AppState) : RegCall → M ErrorResponse Unit
  | regStart userId passkeyName => do let _ ← Rauthy.regStart userId passkeyName
  | regFinish id passkeyName cred => Rauthy.regFinish data id passkeyName cred
  | deleteWebauthn principal id name => Rauthy.deleteWebauthn data principal id name

/-- What a call commits that has seen `tr`. -/
def Commits (data : AppState) (tr : List (Seen Op Op.Res)) (ss : List DbWrite) : RegCall → Prop
  | regStart _ _ => False
  | regFinish _ _ _ => ∃ u reg pk, HasReadUser u tr ∧ HasTakenReg reg tr ∧ pk.userId = u.id ∧
      pk.passkeyUserId = reg.passkeyUserId ∧
      ss = linkStmts data u reg.passkeyUserId ++ [.insert .passkeys pk]
  | deleteWebauthn _ id name => ∃ pks, HasReadPasskeys id pks tr ∧
      (2 ≤ pks.length ∧ ss = [deleteStmt id name] ∨
        pks.length < 2 ∧ ∃ u expires, HasReadUser u tr ∧ ss = [deleteStmt id name,
          User.saveStmt { u with webauthnUserId := none, passwordExpires := expires }])

/-- What a call has read fits the state in which it commits. -/
def Fits (w : World) (tr : List (Seen Op Op.Res)) : RegCall → Prop
  | regStart _ _ => True
  -- no other registration or deletion has come in between
  | regFinish _ _ _ => ∀ u reg, HasReadUser u tr → HasTakenReg reg tr →
      ∀ r ∈ w.db .users, r.id = u.id →
        if u.webauthnUserId = none then
          ∀ p ∈ w.db .passkeys, p.userId = u.id → p.passkeyUserId = reg.passkeyUserId
        else r.webauthnUserId = some reg.passkeyUserId
  -- the list is as long as it was, and there is a passkey of this name
  | deleteWebauthn _ id name => ∀ pks, HasReadPasskeys id pks tr → ∀ r ∈ w.db .users,
      (2 ≤ pks.length → r.webauthnUserId ≠ none → HasAnother w.db id name r.id) ∧
      (pks.length < 2 → ∀ u, HasReadUser u tr →
        if r.id = u.id then ¬ HasAnother w.db id name r.id
        else r.webauthnUserId ≠ none → HasAnother w.db id name r.id)

theorem Commits.writes {data : AppState} {ss : List DbWrite} {q : RegCall}
    (h : q.Commits data tr ss) : ∃ s ∈ ss, s.table = .passkeys := by
  cases q with
  | regStart userId passkeyName => exact h.elim
  | regFinish id passkeyName cred =>
      obtain ⟨u, reg, pk, -, -, -, -, rfl⟩ := h
      exact ⟨.insert .passkeys pk, by simp, rfl⟩
  | deleteWebauthn principal id name =>
      obtain ⟨pks, -, ⟨-, rfl⟩ | ⟨-, u, expires, -, rfl⟩⟩ := h
      · exact ⟨_, List.mem_singleton_self _, rfl⟩
      · exact ⟨_, List.mem_cons_self, rfl⟩

/-- **A commit that fits** leaves everybody linked. -/
theorem Fits.linksOk {data : AppState} {w : World} {q : RegCall} {ss : List DbWrite} {db : Db}
    (h : q.Fits w tr) (hq : q.Commits data tr ss) (hok : LinksOk w.db)
    (hdb : Rauthy.Commits ss w.db db) : LinksOk db := by
  cases q with
  | regStart userId passkeyName => exact hq.elim
  | regFinish id passkeyName cred =>
      obtain ⟨u, reg, pk, hu, hreg, hpk, huuid, rfl⟩ := hq
      exact (links_registered_iff hok hpk huuid hdb).mpr (h u reg hu hreg)
  | deleteWebauthn principal id name =>
      obtain ⟨pks, hpks, ⟨hmany, rfl⟩ | ⟨hlast, u, expires, hu, rfl⟩⟩ := hq
      · exact (links_deleted_iff hok hdb).mpr fun r hr => (h pks hpks r hr).1 hmany
      · exact (links_unlinked_iff hok hdb).mpr fun r hr => (h pks hpks r hr).2 hlast u hu

end RegCall

/-! ### What each call does -/

/-- Users and passkeys are only written by the commits. -/
def RegStep (data : AppState) (q : RegCall) (tr : List (Seen Op Op.Res)) (s : Seen Op Op.Res) :
    Prop :=
  ∀ ss, s.1 = .execute ss →
    (∀ s ∈ ss, s.table ≠ .users ∧ s.table ≠ .passkeys) ∨ q.Commits data tr ss

section Sees

variable {α : Type} {data : AppState} {q : RegCall} {tr : List (Seen Op Op.Res)}
  {cs : List (CacheName × Slot)}

theorem regStep_of_touches {ts : List Table} {o : Op} (hts : Table.users ∉ ts ∧ Table.passkeys ∉ ts)
    (ho : o.Touches ts cs) (tr : List (Seen Op Op.Res)) (x : o.Res) : RegStep data q tr ⟨o, x⟩ := by
  intro ss he
  obtain rfl : o = .execute ss := he
  exact .inl fun s hs => ⟨fun h => hts.1 (h ▸ ho s hs), fun h => hts.2 (h ▸ ho s hs)⟩

theorem regStep_free : Allows (RegStep data q) [] [] :=
  fun _ ho _ tr x => regStep_of_touches (by simp) ho tr x

theorem sees_regAside {ε : Type} {p : Prog Op Op.Res ε α} {ts : List Table} (hp : Touches ts cs p)
    (hts : Table.users ∉ ts ∧ Table.passkeys ∉ ts) :
    Sees Op.Possible (RegStep data q) p (fun _ _ => True) tr :=
  sees_of_within hp fun _ ho tr x _ => regStep_of_touches hts ho tr x

theorem sees_regUser (id : String) :
    Sees Op.Possible (RegStep data q) (User.find id) (fun u tr' => HasReadUser u tr') tr := by
  refine sees_mono (User.sees_find regStep_free fun _ _ _ _ _ he => by cases he)
    fun u tr' _ h => ?_
  rcases h with h | ⟨-, p, rows, h⟩
  · exact .inl ⟨_, h⟩
  · exact .inr ⟨p, rows, h⟩

theorem sees_regBegin :
    Sees Op.Possible (RegStep data q) (execute []) (fun _ _ => True) tr := by
  have h : Touches [] [] (execute []) := touches_execute (by simp)
  exact sees_regAside h (by simp)

theorem sees_regDel (c : CacheName) (k : String) :
    Sees Op.Possible (RegStep data q) (cacheDel c k) (fun _ _ => True) tr := by
  have h : Touches [] [] (cacheDel c k) := touches_cacheDel c k
  exact sees_regAside h (by simp)

theorem sees_regPasskeys (id : String) :
    Sees Op.Possible (RegStep data q) (PasskeyEntity.findForUser id)
      (fun pks tr' => HasReadPasskeys id pks tr') tr := by
  refine sees_mono (sees_cached (F := fun pks tr' => HasReadPasskeys id pks tr')
    (fun x => regStep_free (.cacheGet .webauthn _) trivial trivial tr x) (fun tr₁ _ => ?_)
    fun tr₁ pks x _ ss he => by cases he) fun pks tr' _ h => ?_
  · refine sees_mono (sees_select fun x => regStep_free (.select .passkeys _) trivial trivial tr₁ x)
      fun pks tr₂ _ h => ?_
    rw [h.1]
    exact ⟨_, List.mem_cons_self, .inr rfl⟩
  · rcases h with ⟨v, rfl, hv⟩ | ⟨tr₁, ⟨s, hs, hread⟩, rfl⟩
    · rw [CacheVal.passkeys?_eq_some.mp hv]
      exact ⟨_, List.mem_cons_self, .inl rfl⟩
    · exact ⟨s, List.mem_cons_of_mem _ hs, hread⟩

theorem sees_regSaveTxn (u : User) :
    Sees Op.Possible (RegStep data q) u.saveTxn (fun s _ => s = u.saveStmt) tr := by
  refine sees_bind sees_regBegin fun _ _ _ _ => ?_
  exact sees_bind (sees_regAside (u.saveCached_touches none) (by simp)) fun _ _ _ _ => sees_ret rfl

theorem sees_regLink (u : User) (uuid : String) :
    Sees Op.Possible (RegStep data q) (linkPasskey data u uuid)
      (fun ss _ => ss = linkStmts data u uuid) tr := by
  rcases hu : u.webauthnUserId with - | id
  · simp only [linkPasskey, linkStmts, hu]
    refine sees_bind (sees_regSaveTxn _) fun s _ _ h => sees_ret ?_
    rw [h]
  · simp only [linkPasskey, linkStmts, hu]
    exact sees_ret rfl

theorem sees_regCreate (id uuid name : String) (cred : Passkey) (uv : Bool) :
    Sees Op.Possible (RegStep data q) (PasskeyEntity.create id uuid name cred uv)
      (fun s _ => ∃ pk, s = .insert .passkeys pk ∧ pk.userId = id ∧ pk.passkeyUserId = uuid)
      tr := by
  have hnow : Touches [] [] (unixTimestamp : M ErrorResponse Int) := touches_unixTimestamp
  refine sees_bind (sees_regAside hnow (by simp)) fun now _ _ _ => ?_
  refine sees_bind sees_regBegin fun _ _ _ _ => ?_
  refine sees_bind (sees_regDel _ _) fun _ _ _ _ => ?_
  refine sees_bind (sees_regDel _ _) fun _ _ _ _ => ?_
  exact sees_ret ⟨_, rfl, rfl, rfl⟩

theorem CacheVal.webauthnReg?_eq_some {v : CacheVal} {reg : WebauthnReg} :
    v.webauthnReg? = some reg ↔ v = .webauthnReg reg := by
  cases v <;> simp [CacheVal.webauthnReg?]

theorem sees_regFinishStep (id passkeyName cred : String) :
    Sees Op.Possible (RegStep data (.regFinish id passkeyName cred))
      (regFinish data id passkeyName cred) (fun _ _ => True) tr := by
  refine sees_bind (sees_regUser id) fun user tr₁ _ h₁ => ?_
  have hget : ∀ k x, RegStep data (.regFinish id passkeyName cred) tr₁ ⟨.cacheGet .webauthn k, x⟩ :=
    fun k x => regStep_free (.cacheGet .webauthn k) trivial trivial tr₁ x
  refine sees_bind (sees_cacheGet fun x => hget _ x) fun res tr₂ hsub₂ h₂ => ?_
  refine sees_bind sees_okOr fun reg tr₃ hsub₃ h₃ => ?_
  have htaken : HasTakenReg reg tr₃ := by
    obtain ⟨htr, hreg⟩ := h₃
    obtain ⟨y, htr₂, ⟨hnone, -⟩ | ⟨v, reg', hsome, rfl, hv⟩⟩ := h₂
    · rw [hnone] at hreg
      cases hreg
    · obtain rfl := Option.some.inj (hsome.symm.trans hreg)
      rw [CacheVal.webauthnReg?_eq_some.mp hv] at htr₂
      rw [htr, htr₂]
      exact ⟨_, List.mem_cons_self⟩
  refine sees_bind (sees_regDel _ _) fun _ tr₄ hsub₄ _ => ?_
  have hfinish : Touches [] [] (finishPasskeyRegistration cred reg.regState) :=
    ⟨trivial, fun _ => trivial⟩
  refine sees_bind (sees_regAside hfinish (by simp)) fun r tr₅ hsub₅ _ => ?_
  rcases r with msg | ⟨pk, userVerified⟩
  · exact sees_fail
  refine sees_bind sees_throwIf fun _ tr₆ hsub₆ _ => ?_
  refine sees_bind sees_regBegin
    fun _ tr₇ hsub₇ _ => ?_
  refine sees_bind (sees_regLink user reg.passkeyUserId) fun upd tr₈ hsub₈ hupd => ?_
  refine sees_bind (sees_regCreate _ _ _ _ _) fun ins tr₉ hsub₉ hins => ?_
  obtain ⟨entity, rfl, hid, huuid⟩ := hins
  -- what was read at the beginning is still known at the commit
  have hsub : ∀ v ∈ tr₃, v ∈ tr₉ := fun v hv =>
    hsub₉ v (hsub₈ v (hsub₇ v (hsub₆ v (hsub₅ v (hsub₄ v hv)))))
  have huser : HasReadUser user tr₉ := h₁.mono fun v hv => hsub v (hsub₃ v (hsub₂ v hv))
  obtain ⟨k, hk⟩ := htaken
  refine sees_mono (sees_execute fun x ss he => ?_) fun _ _ _ _ => trivial
  obtain rfl := Op.execute.inj he
  exact .inr ⟨user, reg, entity, huser, ⟨k, hsub _ hk⟩, hid, huuid, by rw [hupd]⟩

theorem sees_regUnlink (id : String) (pks : List PasskeyEntity) :
    Sees Op.Possible (RegStep data q) (unlinkPasskeys id pks) (fun upd tr' =>
      2 ≤ pks.length ∧ upd = [] ∨ pks.length < 2 ∧ ∃ u expires, HasReadUser u tr' ∧
        upd = [User.saveStmt { u with webauthnUserId := none, passwordExpires := expires }])
      tr := by
  unfold unlinkPasskeys
  split
  · next hlast =>
      refine sees_bind (sees_regUser id) fun u tr₁ _ h₁ => ?_
      refine sees_bind (sees_regAside PasswordPolicy.find_touches (by simp))
        fun policy tr₂ hsub₂ _ => ?_
      refine sees_bind (sees_regAside (expiresByPolicy_touches policy u) (by simp))
        fun expires tr₃ hsub₃ _ => ?_
      refine sees_bind (sees_regSaveTxn _) fun s tr₄ hsub₄ h => ?_
      refine sees_ret (.inr ⟨hlast, u, expires, ?_, ?_⟩)
      · exact h₁.mono fun v hv => hsub₄ v (hsub₃ v (hsub₂ v hv))
      · rw [h]
  · next hmore => exact sees_ret (.inl ⟨not_lt.mp hmore, rfl⟩)

theorem sees_regDelete (principal : Principal) (id name : String) :
    Sees Op.Possible (RegStep data (.deleteWebauthn principal id name))
      (deleteWebauthn data principal id name) (fun _ _ => True) tr := by
  refine sees_bind sees_answer fun _ tr₁ _ _ => ?_
  refine sees_bind (sees_regPasskeys id) fun pks tr₂ _ h₂ => ?_
  refine sees_bind sees_regBegin
    fun _ tr₃ hsub₃ _ => ?_
  have hdel : Sees Op.Possible (RegStep data (.deleteWebauthn principal id name))
      (PasskeyEntity.deleteByIdName id name) (fun s _ => s = deleteStmt id name) tr₃ := by
    refine sees_bind sees_regBegin
      fun _ _ _ _ => ?_
    refine sees_bind (sees_regDel _ _) fun _ _ _ _ => ?_
    refine sees_bind (sees_regDel _ _) fun _ _ _ _ => ?_
    exact sees_bind (sees_regDel _ _) fun _ _ _ _ => sees_ret rfl
  refine sees_bind hdel fun del tr₄ hsub₄ hstmt => ?_
  refine sees_bind (sees_regUnlink id pks) fun upd tr₅ hsub₅ hupd => ?_
  obtain ⟨s, hs, hread⟩ := h₂
  refine sees_mono (sees_execute fun x ss he => ?_) fun _ _ _ _ => trivial
  obtain rfl := Op.execute.inj he
  refine .inr ⟨pks, ⟨s, hsub₅ s (hsub₄ s (hsub₃ s hs)), hread⟩, ?_⟩
  rw [hstmt]
  rcases hupd with ⟨hmany, rfl⟩ | ⟨hlast, u, expires, hu, rfl⟩
  · exact .inl ⟨hmany, rfl⟩
  · exact .inr ⟨hlast, u, expires, hu, rfl⟩

/-- **Each call writes users and passkeys at its commit only.** -/
theorem sees_regCall (q : RegCall) :
    Sees Op.Possible (RegStep data q) (q.prog data) (fun _ _ => True) [] := by
  cases q with
  | regStart userId passkeyName =>
      exact sees_bind (sees_regAside (regStart_touches _ _) (by simp))
        fun _ _ _ _ => sees_ret trivial
  | regFinish id passkeyName cred => exact sees_regFinishStep id passkeyName cred
  | deleteWebauthn principal id name => exact sees_regDelete principal id name

end Sees

/-! ### All interleavings -/

abbrev RegEvent := Event RegCall Op Op.Res (Except (Fault ErrorResponse) Unit)

abbrev RegLog := Log RegCall Op Op.Res (Except (Fault ErrorResponse) Unit)

/-- What a call has read fits the state when it writes passkeys. -/
def FitsAtCommit (w : World) (l : RegLog) (e : RegEvent) : Prop :=
  ∀ t ss x, e = .op t (.execute ss) x → (∃ s ∈ ss, s.table = .passkeys) →
    ∀ q, .start t q ∈ l → q.Fits w (seenBy t l)

/-- **One operation** keeps everybody linked. -/
theorem linksOk_op {data : AppState} {w w' : World} {l : RegLog} {t : ℕ} {q : RegCall} {o : Op}
    {x : o.Res} (hok : LinksOk w.db) (hq : .start t q ∈ l) (hx : sem o w x w')
    (hC : FitsAtCommit w l (.op t o x)) (hG : RegStep data q (seenBy t l) ⟨o, x⟩) :
    LinksOk w'.db := by
  have hsame : ∀ {db : Db}, db .users = w.db .users → db .passkeys = w.db .passkeys →
      LinksOk db := by
    intro db husers hpks
    rw [LinksOk, husers, hpks]
    exact hok
  cases o with
  | execute ss =>
      rcases sem_execute.mp hx with ⟨e, -, rfl⟩ | ⟨db, hdb, rfl⟩
      · exact hok
      rcases hG ss rfl with hnone | hcommits
      · exact hsame (applyAll_frame hdb.applied fun s hs => (hnone s hs).1)
          (applyAll_frame hdb.applied fun s hs => (hnone s hs).2)
      · exact (hC t ss x rfl hcommits.writes q hq).linksOk hcommits hok hdb
  | _ => exact hsame (sem_table hx List.not_mem_nil) (sem_table hx List.not_mem_nil)

/-- **The id of the authenticators**: in every interleaving of registrations and deletions, in which
a call may fail at any point, and whose commits fit the state they meet, a user has an id if and
only if it has a passkey, and all of its passkeys have this id. -/
theorem passkeys_linked (data : AppState) {w₀ : World} (h₀ : LinksOk w₀.db)
    {P : Pool RegCall Op Op.Res World (Fault ErrorResponse) Unit}
    (h : Run (RegCall.prog data) sem FitsAtCommit (init w₀) P) : LinksOk P.world.db :=
  (Run.inv_of_seen (A := fun _ => Op.Possible) (G := RegStep data) (F := fun _ _ _ => True)
    (I := fun (w : World) (_ : RegLog) => LinksOk w.db)
    (fun q => Prog.wp_mono (sees_regCall q) fun _ _ _ => trivial)
    (fun w _ _ _ _ _ w' _ _ hx _ => ⟨w, w', hx⟩) h₀ (fun _ _ _ _ hI _ _ => hI)
    (fun _ _ _ _ _ _ _ hI hq _ hx hC hG => linksOk_op hI hq hx hC hG)
    (fun _ _ _ _ _ hI _ _ _ _ => hI) h).1

/-! ### A passkey that does not exist -/

def alicePrincipal : Principal where
  session := some { (default : Session) with userId := some "alice", state := .auth }
  roles := []

/-- Alice is linked and has these passkeys. -/
def linkedWith (pks : List PasskeyEntity) : World where
  clock := 0
  issued := ["uuid"]
  db
    | .users => [{ sampleUser with webauthnUserId := some "uuid" }]
    | .passkeys => pks
    | .passwordPolicy => [recentRules]
    | _ => []
  cache _ _ := none

/-- The passkey `b` is deleted, up to and with the `n`th operation. -/
def deletion (n : ℕ) : List (Move RegCall Choice) :=
  .start 0 (.deleteWebauthn alicePrincipal "alice" "b") :: List.replicate n (.op 0 .ok)

/-- No list of less than two passkeys was read. -/
def readsTwo : Seen Op Op.Res → Bool
  | ⟨.cacheGet .webauthn _, .ok (some (.passkeys pks))⟩ => 2 ≤ pks.length
  | ⟨.select .passkeys _, .ok pks⟩ => 2 ≤ pks.length
  | _ => true

/-- The call is the deletion of one of two passkeys. -/
def deletesOne (w : World) (q : RegCall) : Bool :=
  match q with
  | .deleteWebauthn _ id name => (w.db .users).all fun r => decide (HasAnother w.db id name r.id)
  | _ => false

/-- What is written is the deletion of one of two passkeys. -/
def oneOfTwo (w : World) (l : RegLog) (e : RegEvent) : Bool :=
  match e with
  | .op t (.execute ss) _ => ss.all (fun s => decide (s.table ≠ .passkeys)) ||
      (seenBy t l).all readsTwo && l.all fun e' =>
        match e' with
        | .start _ q => deletesOne w q
        | _ => true
  | _ => true

theorem fitsAtCommit_of_oneOfTwo {w : World} {l : RegLog} {e : RegEvent}
    (h : oneOfTwo w l e = true) : FitsAtCommit w l e := by
  rintro t ss x rfl ⟨s, hs, hpks⟩ q hq
  rcases Bool.or_eq_true_iff.mp h with hnone | htwo
  · exact absurd hpks (of_decide_eq_true (List.all_eq_true.mp hnone s hs))
  obtain ⟨hread, hcalls⟩ := Bool.and_eq_true_iff.mp htwo
  have hq : deletesOne w q = true := List.all_eq_true.mp hcalls _ hq
  cases q with
  | regStart userId passkeyName => cases hq
  | regFinish id passkeyName cred => cases hq
  | deleteWebauthn principal id name =>
      rintro pks ⟨s, hs, hpks⟩ r hr
      have hlength : 2 ≤ pks.length := by
        have htwo := List.all_eq_true.mp hread s hs
        rcases hpks with rfl | rfl
        · exact of_decide_eq_true htwo
        · exact of_decide_eq_true htwo
      have hanother : HasAnother w.db id name r.id :=
        of_decide_eq_true (List.all_eq_true.mp hq r hr)
      exact ⟨fun _ _ => hanother, fun hlast => absurd hlength (not_le.mpr hlast)⟩

theorem passkeys_linked_deletion : ∃ P, Run (RegCall.prog sampleState) sem FitsAtCommit
    (init (linkedWith [samplePasskey "a" true, samplePasskey "b" true])) P ∧
    (P.world.db .passkeys).length = 1 ∧ LinksOk P.world.db := by
  obtain ⟨P, hrun, hP⟩ := exists_run_of_moves (C := FitsAtCommit) (RegCall.prog sampleState) Op.run
    oneOfTwo (linkedWith [samplePasskey "a" true, samplePasskey "b" true]) (deletion 9)
    (fun P => decide ((P.world.db .passkeys).length = 1)) (by decide +kernel)
    (fun _ _ _ h => fitsAtCommit_of_oneOfTwo h)
  exact ⟨P, hrun, of_decide_eq_true hP, passkeys_linked sampleState (by decide) hrun⟩

/-- The list has one passkey, and it is another one: the passkey is left, and the user has no id. -/
theorem passkey_left_unlinked :
    ¬ ∀ (data : AppState) (w₀ : World)
      (P : Pool RegCall Op Op.Res World (Fault ErrorResponse) Unit),
      LinksOk w₀.db → Run (RegCall.prog data) sem (fun _ _ _ => True) (init w₀) P →
        LinksOk P.world.db := by
  intro hall
  obtain ⟨P, hrun, hP⟩ := exists_run_of_moves (C := fun _ _ _ => True) (RegCall.prog sampleState)
    Op.run (fun _ _ _ => true) (linkedWith [samplePasskey "a" true]) (deletion 18)
    (fun P => decide (¬ LinksOk P.world.db)) (by decide +kernel) (fun _ _ _ _ => trivial)
  exact of_decide_eq_true hP (hall sampleState _ P (by decide) hrun)

end Rauthy
