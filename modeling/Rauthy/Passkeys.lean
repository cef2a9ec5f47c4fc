/-
Rauthy/Passkeys.lean

The passkeys of one user and the entry of the cache that two queries share: all of the passkeys
of the user, and those with user verification.  Whichever of them fills the entry answers for both,
until a registration, a use or a deletion invalidates it.

Main results:
  * `passkeys_served`: in every order of calls in which the entry is only found by calls that ask
    for the same as the one that has stored it, each call answers from the table;
  * `presence_key_served`: a call for the verified passkeys answers with one that is not, and an
    account without a verified passkey is converted to a passkey account.
-/
import Rauthy.OneTime

namespace Rauthy

open Prog Pool

variable {userId : String} {db : Db}

/-! ### Deleting a passkey -/

/-- `PasskeyEntity::delete_by_id_name` inside a transaction: the statement for its commit. -/
def PasskeyEntity.deleteByIdName (userId name : String) : M ErrorResponse DbWrite := do
  execute []
  cacheDel .webauthn (cacheIdxSingle userId name)
  cacheDel .webauthn (cacheIdxUser userId)
  cacheDel .webauthn (cacheIdxCreds userId)
  return .delete .passkeys fun r => r.userId == userId && r.name == name

/-- An admin may delete the passkeys of every user, the others their own. -/
def checkDeleteWebauthn (data : AppState) (principal : Principal) (id : String) :
    Except ErrorResponse Unit :=
  match principal.validateAdminSession data with
  | .ok _ => .ok ()
  | .error _ => principal.validateSessionAuth.bind fun _ => principal.isUser id

/-- When the password expires from now on, if the policy says so. -/
def expiresByPolicy (policy : PasswordPolicy) (user : User) : M ErrorResponse (Option Int) :=
  match policy.validDays with
  | none => return user.passwordExpires
  | some validDays =>
      if user.password.isSome then do
        let now ← unixTimestamp
        return some (now + validDays * 86400)
      else return none

/-- The statement for the user that is to lose its last passkey. -/
def unlinkPasskeys (id : String) (pks : List PasskeyEntity) : M ErrorResponse (List DbWrite) :=
  if pks.length < 2 then do
    let user ← User.find id
    let policy ← PasswordPolicy.find
    let passwordExpires ← expiresByPolicy policy user
    let upd ← User.saveTxn { user with webauthnUserId := none, passwordExpires }
    return [upd]
  else return []

/-- `delete_webauthn` -/
def deleteWebauthn (data : AppState) (principal : Principal) (id name : String) :
    M ErrorResponse Unit := do
  answer (checkDeleteWebauthn data principal id)
  let pks ← PasskeyEntity.findForUser id
  execute []
  let del ← PasskeyEntity.deleteByIdName id name
  let upd ← unlinkPasskeys id pks
  execute (del :: upd)

/-! ### The two queries -/

/-- What the two queries select: all passkeys of the user, or those with user verification. -/
def passkeyFilter (userId : String) : Bool → PasskeyEntity → Bool
  | false => fun pk => pk.userId == userId
  | true => fun pk => pk.userId == userId && pk.userVerified == some true

/-- The rows in the table. -/
def passkeysOf (userId : String) (uv : Bool) (db : Db) : List PasskeyEntity :=
  (db .passkeys).filter (passkeyFilter userId uv)

theorem passkeysFor_eq (uv : Bool) (userId : String) :
    passkeysFor uv userId = cached .webauthn (PasskeyEntity.cacheIdxUser userId) CacheVal.passkeys?
      .passkeys (select .passkeys (passkeyFilter userId uv)) := by
  cases uv <;> rfl

/-- All passkeys of the user are verified. -/
def AllVerified (userId : String) (db : Db) : Prop :=
  ∀ pk ∈ db .passkeys, pk.userId = userId → pk.userVerified = some true

theorem passkeysOf_verified (h : AllVerified userId db) (uv : Bool) :
    passkeysOf userId uv db = passkeysOf userId false db := by
  cases uv with
  | false => rfl
  | true =>
      refine List.filter_congr fun pk hpk => ?_
      show (pk.userId == userId && pk.userVerified == some true) = (pk.userId == userId)
      by_cases hid : pk.userId = userId
      · rw [h pk hpk hid]
        simp
      · simp [hid]

/-- The statement can change the passkeys of the user. -/
def ChangesPasskeys (userId : String) : DbWrite → Prop
  | .insert .passkeys r => r.userId = userId
  | .upsert .passkeys _ => True
  | .update .passkeys p f => ∃ r, p r = true ∧ (r.userId = userId ∨ (f r).userId = userId)
  | .delete .passkeys p => ∃ r, p r = true ∧ r.userId = userId
  | .cascade .passkeys _ => True
  | _ => False

theorem passkeysOf_apply {s : DbWrite} {db' : Db} (h : s.apply db = some db')
    (hs : ¬ ChangesPasskeys userId s) (uv : Bool) :
    passkeysOf userId uv db' = passkeysOf userId uv db := by
  have hown : ∀ r, passkeyFilter userId uv r = true → r.userId = userId := fun r hr => by
    cases uv with
    | false => exact beq_iff_eq.mp hr
    | true => exact beq_iff_eq.mp (Bool.and_eq_true_iff.mp hr).1
  by_cases ht : s.table = .passkeys
  · cases s with
    | insert t r =>
        obtain rfl : t = .passkeys := ht
        simp only [DbWrite.apply] at h
        split at h
        · cases h
        cases h
        have hr : passkeyFilter userId uv r = false := by
          by_contra hne
          exact hs (hown r (by simpa using hne))
        simp [passkeysOf, hr]
    | upsert t r =>
        obtain rfl : t = .passkeys := ht
        exact absurd trivial hs
    | update t p f =>
        obtain rfl : t = .passkeys := ht
        cases h
        -- a row that is changed is another user's, before and after
        have hrow : ∀ r : PasskeyEntity, p r = true →
            passkeyFilter userId uv r = false ∧ passkeyFilter userId uv (f r) = false := by
          intro r hr
          constructor
          · by_contra hne
            exact hs ⟨r, hr, .inl (hown r (by simpa using hne))⟩
          · by_contra hne
            exact hs ⟨r, hr, .inr (hown (f r) (by simpa using hne))⟩
        show ((db .passkeys).map fun r => if p r = true then f r else r).filter _ = _
        rw [passkeysOf]
        induction db .passkeys with
        | nil => rfl
        | cons r rs ih =>
            by_cases hp : p r = true
            · simp [hp, (hrow r hp).1, (hrow r hp).2, ih]
            · simp [hp, List.filter_cons, ih]
    | delete t p =>
        obtain rfl : t = .passkeys := ht
        cases h
        show ((db .passkeys).filter fun r => !p r).filter _ = _
        rw [List.filter_filter]
        refine List.filter_congr fun r _ => ?_
        by_cases hr : passkeyFilter userId uv r = true
        · have hp : p r = false := by
            by_contra hne
            exact hs ⟨r, by simpa using hne, hown r hr⟩
          simp [hr, hp]
        · simp [hr]
    | cascade t p =>
        obtain rfl : t = .passkeys := ht
        exact absurd trivial hs
  · show (db' .passkeys).filter _ = _
    rw [DbWrite.apply_frame h ht]
    rfl

theorem passkeysOf_applyAll {ss : List DbWrite} {db' : Db} (h : applyAll ss db = some db')
    (hs : ∀ s ∈ ss, ¬ ChangesPasskeys userId s) (uv : Bool) :
    passkeysOf userId uv db' = passkeysOf userId uv db := by
  induction ss generalizing db with
  | nil =>
      cases h
      rfl
  | cons s ss ih =>
      obtain ⟨db₁, h₁, h₂⟩ := Option.bind_eq_some_iff.mp h
      rw [ih h₂ fun s hs' => hs s (List.mem_cons_of_mem _ hs')]
      exact passkeysOf_apply h₁ (hs s List.mem_cons_self) uv

/-! ### The calls -/

/-- The calls that ask for the passkeys of a user or change them, and any others that do
neither. -/
inductive PasskeyCall where
  | findForUser (userId : String)
  | findForUserWithUv (userId : String)
  | convertToPasskey (id : String)
  | authStart (userId : String) (purpose : MfaPurpose)
  | authFinish (userId : String) (req : WebauthnAuthFinishRequest)
  | regFinish (id passkeyName cred : String)
  | deleteWebauthn (principal : Principal) (id name : String)
  | other (p : M ErrorResponse Unit) (ts : List Table) (cs : List (CacheName × Slot))
      (h : Touches ts cs p) (hts : Table.passkeys ∉ ts) (hcs : (CacheName.webauthn, Slot.passkeys) ∉ cs)

/-- The call has found this user. -/
def HasReadUser (u : User) (tr : List (Seen Op Op.Res)) : Prop :=
  (∃ k, ⟨.cacheGet .users k, .ok (some (.user u))⟩ ∈ tr) ∨
    ∃ p rest, ⟨.select .users p, .ok (u :: rest)⟩ ∈ tr

theorem HasReadUser.mono {u : User} {tr tr' : List (Seen Op Op.Res)} (h : HasReadUser u tr)
    (hs : ∀ v ∈ tr, v ∈ tr') : HasReadUser u tr' := by
  rcases h with ⟨k, h⟩ | ⟨p, rest, h⟩
  · exact .inl ⟨k, hs _ h⟩
  · exact .inr ⟨p, rest, hs _ h⟩

namespace PasskeyCall

/-- What a query is answered; nothing otherwise. -/
def prog (data : AppState) : PasskeyCall → M ErrorResponse (List PasskeyEntity)
  | findForUser userId => PasskeyEntity.findForUser userId
  | findForUserWithUv userId => PasskeyEntity.findForUserWithUv userId
  | convertToPasskey id => do
      User.convertToPasskey data id
      return []
  | authStart userId purpose => do
      let _ ← Rauthy.authStart data userId purpose
      return []
  | authFinish userId req => do
      let _ ← Rauthy.authFinish data userId req
      return []
  | regFinish id passkeyName cred => do
      Rauthy.regFinish data id passkeyName cred
      return []
  | deleteWebauthn principal id name => do
      Rauthy.deleteWebauthn data principal id name
      return []
  | other p _ _ _ _ _ => do
      p
      return []

/-- The call asks for the passkeys of the user, for the verified ones only if `uv`. -/
def Asks (data : AppState) (userId : String) (uv : Bool) (tr : List (Seen Op Op.Res)) :
    PasskeyCall → Prop
  | findForUser id => id = userId ∧ uv = false
  | findForUserWithUv id => id = userId ∧ uv = true
  | convertToPasskey _ => ∃ u, HasReadUser u tr ∧ u.id = userId ∧ uv = true
  | authStart _ _ => ∃ u, HasReadUser u tr ∧ u.id = userId ∧ uv = forceUv data u
  | authFinish _ _ => ∃ u, HasReadUser u tr ∧ u.id = userId ∧ uv = false
  | deleteWebauthn _ id _ => id = userId ∧ uv = false
  | _ => False

theorem Asks.mono {data : AppState} {uv : Bool} {tr tr' : List (Seen Op Op.Res)} {q : PasskeyCall}
    (h : q.Asks data userId uv tr) (hs : ∀ v ∈ tr, v ∈ tr') :
    q.Asks data userId uv tr' := by
  cases q with
  | findForUser id => exact h
  | findForUserWithUv id => exact h
  | deleteWebauthn principal id name => exact h
  | convertToPasskey id =>
      obtain ⟨u, hu, h⟩ := h
      exact ⟨u, hu.mono hs, h⟩
  | authStart id purpose =>
      obtain ⟨u, hu, h⟩ := h
      exact ⟨u, hu.mono hs, h⟩
  | authFinish id req =>
      obtain ⟨u, hu, h⟩ := h
      exact ⟨u, hu.mono hs, h⟩
  | regFinish id passkeyName cred => exact h
  | other p ts cs h₁ h₂ h₃ => exact h

end PasskeyCall

/-! ### What each call promises -/

/-- The operation changes the passkeys of the user. -/
def Op.ChangesPasskeys (userId : String) : Op → Prop
  | .execute ss => ∃ s ∈ ss, Rauthy.ChangesPasskeys userId s
  | _ => False

/-- The operation stores a list under the key of the user. -/
def StoresPasskeys (userId : String) (o : Op) : Prop :=
  ∃ ls, o = .cachePut .webauthn (PasskeyEntity.cacheIdxUser userId) (.passkeys ls)

/-- The call has deleted the entry of the user, and has not stored it again. -/
def DroppedPasskeys (userId : String) (tr : List (Seen Op Op.Res)) : Prop :=
  ∃ tr₂ tr₁, tr = tr₂ ++ ⟨.cacheDel .webauthn (PasskeyEntity.cacheIdxUser userId), .ok ()⟩ :: tr₁ ∧
    ∀ v ∈ tr₂, ¬ StoresPasskeys userId v.1

/-- The list was found in the cache, or read from the table. -/
def ReadsPasskeys (userId : String) (uv : Bool) (ls : List PasskeyEntity) (s : Seen Op Op.Res) :
    Prop :=
  s = ⟨.cacheGet .webauthn (PasskeyEntity.cacheIdxUser userId), .ok (some (.passkeys ls))⟩ ∨
    s = ⟨.select .passkeys (passkeyFilter userId uv), .ok ls⟩

/-- The call has asked for the passkeys and has found these, and has changed nothing since. -/
def FoundPasskeys (data : AppState) (userId : String) (q : PasskeyCall) (uv : Bool)
    (ls : List PasskeyEntity) (tr : List (Seen Op Op.Res)) : Prop :=
  ∃ tr₂ s tr₁, tr = tr₂ ++ s :: tr₁ ∧ ReadsPasskeys userId uv ls s ∧ q.Asks data userId uv tr₁ ∧
    ∀ v ∈ tr₂, ¬ v.1.ChangesPasskeys userId

/-- A list is stored as it has just been read, the passkeys are changed after the entry has been
deleted, and a ceremony is started for the passkeys that were found. -/
structure PasskeyStep (data : AppState) (userId : String) (q : PasskeyCall)
    (tr : List (Seen Op Op.Res)) (s : Seen Op Op.Res) : Prop where
  puts : ∀ ls, s.1 = .cachePut .webauthn (PasskeyEntity.cacheIdxUser userId) (.passkeys ls) →
    ∃ uv tr', tr = ⟨.select .passkeys (passkeyFilter userId uv), .ok ls⟩ :: tr' ∧
      q.Asks data userId uv tr'
  writes : s.1.ChangesPasskeys userId → DroppedPasskeys userId tr
  offers : ∀ id purpose pks, q = .authStart id purpose → s.1 = .startPasskeyAuthentication pks →
    ∃ u ls, HasReadUser u tr ∧ pks = ls.map PasskeyEntity.passkey ∧
      (u.id = userId → FoundPasskeys data userId q (forceUv data u) ls tr)

/-- What a call that was answered has seen. -/
def PasskeyCall.Ends (data : AppState) (userId : String) (ls : List PasskeyEntity)
    (tr : List (Seen Op Op.Res)) : PasskeyCall → Prop
  | .findForUser id =>
      id = userId → FoundPasskeys data userId (.findForUser id) false ls tr
  | .findForUserWithUv id =>
      id = userId → FoundPasskeys data userId (.findForUserWithUv id) true ls tr
  | .convertToPasskey id => ∃ u pks, HasReadUser u tr ∧ pks ≠ [] ∧
      (u.id = userId → FoundPasskeys data userId (.convertToPasskey id) true pks tr)
  | _ => True

/-- The operation neither stores a list of passkeys nor changes the passkeys of the user, and
starts no ceremony. -/
def Op.SparesPasskeys (userId : String) : Op → Prop
  | .execute ss => ∀ s ∈ ss, ¬ Rauthy.ChangesPasskeys userId s
  | .cachePut c _ v => (c, v.slot) ≠ (.webauthn, .passkeys)
  | .startPasskeyAuthentication _ => False
  | _ => True

theorem changesPasskeys_table {s : DbWrite} (h : ChangesPasskeys userId s) :
    s.table = .passkeys := by
  cases s with
  | insert t r => cases t <;> first | exact h.elim | rfl
  | upsert t r => cases t <;> first | exact h.elim | rfl
  | update t p f => cases t <;> first | exact h.elim | rfl
  | delete t p => cases t <;> first | exact h.elim | rfl
  | cascade t p => cases t <;> first | exact h.elim | rfl

section Sees

variable {α : Type} {data : AppState} {userId : String} {q : PasskeyCall}
  {tr tr' : List (Seen Op Op.Res)} {o : Op}
  {ts : List Table} {cs : List (CacheName × Slot)}
  {tr₂ : List (Seen Op Op.Res)}

theorem Op.SparesPasskeys.step (ho : o.SparesPasskeys userId) (tr : List (Seen Op Op.Res))
    (x : o.Res) : PasskeyStep data userId q tr ⟨o, x⟩ := by
  refine ⟨fun ls he => ?_, fun hc => ?_, fun id purpose pks _ he => ?_⟩
  · obtain rfl : o = _ := he
    exact absurd rfl ho
  · cases o with
    | execute ss =>
        obtain ⟨s, hs, hc⟩ := hc
        exact absurd hc (ho s hs)
    | _ => exact hc.elim
  · obtain rfl : o = _ := he
    exact ho.elim

/-- What touches no passkeys spares them, but for the start of a ceremony. -/
theorem passkeyStep_of_touches (hq : ∀ id purpose, q ≠ .authStart id purpose)
    (hts : Table.passkeys ∉ ts) (hcs : (CacheName.webauthn, Slot.passkeys) ∉ cs)
    (ho : o.Touches ts cs) (tr : List (Seen Op Op.Res)) (x : o.Res) :
    PasskeyStep data userId q tr ⟨o, x⟩ := by
  have hspare : (∀ pks, o ≠ .startPasskeyAuthentication pks) → o.SparesPasskeys userId := by
    intro hne
    cases o with
    | execute ss => exact fun s hs hc => hts (changesPasskeys_table hc ▸ ho s hs)
    | cachePut c k v => exact fun he => hcs (he ▸ ho)
    | startPasskeyAuthentication pks => exact hne pks rfl
    | _ => trivial
  by_cases hstart : ∃ pks, o = .startPasskeyAuthentication pks
  · obtain ⟨pks, rfl⟩ := hstart
    exact ⟨fun ls he => (by cases he), False.elim, fun id purpose _ he => absurd he (hq id purpose)⟩
  · push Not at hstart
    exact (hspare hstart).step tr x

/-- The operation neither stores a list of passkeys nor changes the passkeys of the user. -/
def Op.Aside (userId : String) (o : Op) : Prop :=
  ¬ StoresPasskeys userId o ∧ ¬ o.ChangesPasskeys userId

theorem Op.SparesPasskeys.aside (ho : o.SparesPasskeys userId) : o.Aside userId := by
  refine ⟨?_, fun hc => ?_⟩
  · rintro ⟨ls, rfl⟩
    exact ho rfl
  · cases o with
    | execute ss =>
        obtain ⟨s, hs, hc⟩ := hc
        exact ho s hs hc
    | _ => exact hc

theorem aside_of_touches (hts : Table.passkeys ∉ ts)
    (hcs : (CacheName.webauthn, Slot.passkeys) ∉ cs) (ho : o.Touches ts cs) : o.Aside userId := by
  refine ⟨?_, fun hc => ?_⟩
  · rintro ⟨ls, rfl⟩
    exact hcs ho
  · cases o with
    | execute ss =>
        obtain ⟨s, hs, hc⟩ := hc
        exact hts (changesPasskeys_table hc ▸ ho s hs)
    | _ => exact hc

theorem FoundPasskeys.grow {uv : Bool} {ls : List PasskeyEntity}
    (h : FoundPasskeys data userId q uv ls tr) (h₂ : ∀ v ∈ tr₂, v.1.Aside userId) :
    FoundPasskeys data userId q uv ls (tr₂ ++ tr) := by
  obtain ⟨tr₃, s, tr₁, rfl, hs, hask, h₃⟩ := h
  refine ⟨tr₂ ++ tr₃, s, tr₁, by simp, hs, hask, fun v hv => ?_⟩
  rcases List.mem_append.mp hv with hv | hv
  · exact (h₂ v hv).2
  · exact h₃ v hv

theorem DroppedPasskeys.grow (h : DroppedPasskeys userId tr) (h₂ : ∀ v ∈ tr₂, v.1.Aside userId) :
    DroppedPasskeys userId (tr₂ ++ tr) := by
  obtain ⟨tr₃, tr₁, rfl, h₃⟩ := h
  refine ⟨tr₂ ++ tr₃, tr₁, by simp, fun v hv => ?_⟩
  rcases List.mem_append.mp hv with hv | hv
  · exact (h₂ v hv).1
  · exact h₃ v hv

theorem DroppedPasskeys.cons (h : DroppedPasskeys userId tr) {s : Seen Op Op.Res}
    (hs : s.1.Aside userId) : DroppedPasskeys userId (s :: tr) := by
  have hone : ∀ v ∈ [s], v.1.Aside userId := by
    rw [List.forall_mem_singleton]
    exact hs
  exact h.grow hone

theorem sees_asidePart {ε : Type} {p : Prog Op Op.Res ε α}
    (hq : ∀ id purpose, q ≠ .authStart id purpose) (hp : Touches ts cs p)
    (hts : Table.passkeys ∉ ts) (hcs : (CacheName.webauthn, Slot.passkeys) ∉ cs) :
    Sees Op.Possible (PasskeyStep data userId q) p (fun _ tr' => ∃ tr₂, tr' = tr₂ ++ tr ∧
      ∀ v ∈ tr₂, v.1.Aside userId) tr := by
  have h : Sees Op.Possible (PasskeyStep data userId q) p (fun _ _ => True) tr :=
    sees_of_within hp fun o ho tr x _ => passkeyStep_of_touches hq hts hcs ho tr x
  refine sees_mono (h.grown hp) fun _ _ _ h => ?_
  obtain ⟨-, tr₂, htr, h₂⟩ := h
  exact ⟨tr₂, htr, fun v hv => aside_of_touches hts hcs (h₂ v hv)⟩

theorem sees_readUser (id : String) :
    Sees Op.Possible (PasskeyStep data userId q) (User.find id) (fun u tr' => HasReadUser u tr') tr := by
  refine sees_mono (sees_cached (F := fun u tr' => ∃ p rest, ⟨.select .users p, .ok (u :: rest)⟩ ∈ tr')
    (fun x => Op.SparesPasskeys.step (o := .cacheGet .users _) trivial tr x) (fun tr₁ _ => ?_)
    fun tr₁ u x _ => Op.SparesPasskeys.step (o := .cachePut .users _ (.user u)) (by simp [Op.SparesPasskeys]) tr₁ x)
    fun u tr' _ h => ?_
  · refine sees_mono (sees_fetchOne fun x =>
      Op.SparesPasskeys.step (o := .select .users _) trivial tr₁ x) fun u tr₂ _ h => ?_
    obtain ⟨⟨rest, rfl⟩, -⟩ := h
    exact ⟨_, rest, List.mem_cons_self⟩
  · rcases h with ⟨v, rfl, hv⟩ | ⟨tr₁, ⟨p, rest, hmem⟩, rfl⟩
    · rw [CacheVal.user?_eq_some.mp hv]
      exact .inl ⟨_, List.mem_cons_self⟩
    · exact .inr ⟨p, rest, List.mem_cons_of_mem _ hmem⟩

theorem sees_passkeysFor (uv : Bool) {id : String} (hask : id = userId → q.Asks data userId uv tr) :
    Sees Op.Possible (PasskeyStep data userId q) (passkeysFor uv id)
      (fun ls tr' => id = userId → FoundPasskeys data userId q uv ls tr') tr := by
  rw [passkeysFor_eq]
  refine sees_mono (sees_cached (F := fun ls tr' => ∃ tr₀,
      tr' = ⟨.select .passkeys (passkeyFilter id uv), .ok ls⟩ :: tr₀ ∧ ∀ v ∈ tr, v ∈ tr₀)
    (fun x => Op.SparesPasskeys.step (o := .cacheGet .webauthn _) trivial tr x) (fun tr₁ hsub => ?_)
    fun tr₁ ls x h => ?_) fun ls tr' _ h => ?_
  · refine sees_mono (sees_select fun x =>
      Op.SparesPasskeys.step (o := .select .passkeys _) trivial tr₁ x) fun ls tr₂ _ h => ?_
    exact ⟨tr₁, h.1, hsub⟩
  · obtain ⟨tr₀, rfl, hsub⟩ := h
    refine ⟨fun ls' he => ?_, False.elim, fun _ _ _ _ he => by cases he⟩
    simp only [Op.cachePut.injEq, true_and, CacheVal.passkeys.injEq] at he
    obtain ⟨hidx, rfl⟩ := he
    obtain rfl := PasskeyEntity.cacheIdxUser_inj.mp hidx
    exact ⟨uv, tr₀, rfl, (hask rfl).mono hsub⟩
  · rintro rfl
    rcases h with ⟨v, rfl, hv⟩ | ⟨tr₁, ⟨tr₀, rfl, hsub⟩, rfl⟩
    · rw [CacheVal.passkeys?_eq_some.mp hv]
      exact ⟨[], _, tr, rfl, .inl rfl, hask rfl, by simp⟩
    · refine ⟨[_], _, tr₀, rfl, .inr rfl, (hask rfl).mono hsub, fun v hv => ?_⟩
      rw [List.mem_singleton.mp hv]
      exact not_false

/-! The calls -/

theorem sees_convertToPasskey (id : String) :
    Sees Op.Possible (PasskeyStep data userId (.convertToPasskey id)) (User.convertToPasskey data id)
      (fun _ tr' => ∃ u pks, HasReadUser u tr' ∧ pks ≠ [] ∧
        (u.id = userId → FoundPasskeys data userId (.convertToPasskey id) true pks tr')) tr := by
  have hq : ∀ id' purpose, PasskeyCall.convertToPasskey id ≠ .authStart id' purpose :=
    fun _ _ he => by cases he
  refine sees_bind (sees_readUser id) fun u tr₁ _ h₁ => ?_
  refine sees_bind sees_throwIf fun _ tr₂ _ h₂ => ?_
  refine sees_bind sees_throwIf fun _ tr₃ _ h₃ => ?_
  obtain ⟨rfl, -⟩ := h₂
  obtain ⟨rfl, -⟩ := h₃
  refine sees_bind (sees_passkeysFor true fun hid => ⟨u, h₁, hid, rfl⟩) fun pks tr₄ hsub h₄ => ?_
  refine sees_bind sees_throwIf fun _ tr₅ _ h₅ => ?_
  obtain ⟨rfl, hne⟩ := h₅
  refine sees_mono (sees_asidePart hq (User.save_touches data _ none) (by simp) (by simp))
    fun _ tr₆ hsub₆ h₆ => ?_
  obtain ⟨tr₂, rfl, haside⟩ := h₆
  exact ⟨u, pks, (h₁.mono hsub).mono hsub₆, fun he => hne (by rw [he]; rfl),
    fun hid => (h₄ hid).grow haside⟩

/-- `cache_get!` from the shared cache. -/
theorem sees_findDataPart {β : Type} {dec : Bincode.Dec β} {what code : String} :
    Sees Op.Possible (PasskeyStep data userId q) (findData dec what code) (fun _ _ => True) tr := by
  refine sees_bind (sees_cacheGet fun x =>
    Op.SparesPasskeys.step (o := .cacheGet .webauthnData code) trivial tr x) fun _ tr' _ _ => ?_
  exact sees_mono sees_okOr fun _ _ _ _ => trivial

theorem sees_saveDataPart {b : Bool} {code : String} {bytes : Bytes} :
    Sees Op.Possible (PasskeyStep data userId q) (saveData b code bytes) (fun _ _ => True) tr := by
  refine sees_bind sees_throwIf fun _ tr' _ _ => ?_
  exact sees_mono (sees_cachePut fun x => Op.SparesPasskeys.step
    (o := .cachePut .webauthnData code (.bytes bytes)) (by simp [Op.SparesPasskeys]) tr' x)
    fun _ _ _ _ => trivial

theorem sees_randPart {n : ℕ} :
    Sees Op.Possible (PasskeyStep data userId q) (getRand n : M ErrorResponse String)
      (fun _ _ => True) tr :=
  sees_mono (sees_getRand fun s => Op.SparesPasskeys.step (o := .getRand n) trivial tr s)
    fun _ _ _ _ => trivial

theorem sees_addDataPart (id : String) (purpose : MfaPurpose) :
    Sees Op.Possible (PasskeyStep data userId q) (addDataFor id purpose) (fun _ _ => True) tr := by
  have hnew : Sees Op.Possible (PasskeyStep data userId q) (addDataFor.newService id)
      (fun _ _ => True) tr := by
    refine sees_bind (F := fun _ _ => True) (sees_bind sees_randPart fun _ _ _ _ => sees_ret trivial)
      fun svcReq tr' _ _ => ?_
    exact sees_bind sees_saveDataPart fun _ _ _ _ => sees_ret trivial
  cases purpose with
  | login code => exact sees_bind sees_findDataPart fun _ _ _ _ => sees_ret trivial
  | passwordNew => exact hnew
  | passwordReset => exact hnew
  | test => exact sees_ret trivial

theorem sees_authStartPart (id : String) (purpose : MfaPurpose) :
    Sees Op.Possible (PasskeyStep data userId (.authStart id purpose)) (authStart data id purpose)
      (fun _ _ => True) tr := by
  refine sees_bind (sees_addDataPart id purpose) fun addData tr₁ _ _ => ?_
  refine sees_bind (sees_readUser id) fun u tr₂ _ h₂ => ?_
  refine sees_bind (sees_passkeysFor _ fun hid => ⟨u, h₂, hid, rfl⟩) fun pks tr₃ hsub h₃ => ?_
  refine sees_bind sees_throwIf fun _ tr₄ _ h₄ => ?_
  obtain ⟨rfl, -⟩ := h₄
  -- the ceremony is for the passkeys that were found
  have hoffer : ∀ x, PasskeyStep data userId (.authStart id purpose) tr₄
      ⟨.startPasskeyAuthentication (pks.map PasskeyEntity.passkey), x⟩ := fun x =>
    ⟨fun ls he => (by cases he), False.elim, fun id' purpose' pks' _ he => by
      cases he
      exact ⟨u, pks, h₂.mono hsub, rfl, h₃⟩⟩
  have hstart : Sees Op.Possible (PasskeyStep data userId (.authStart id purpose))
      (startPasskeyAuthentication (pks.map PasskeyEntity.passkey)) (fun _ _ => True) tr₄ :=
    sees_call (o := Op.startPasskeyAuthentication _) (fun x _ => hoffer x) fun _ _ => sees_ret trivial
  refine sees_bind hstart fun r tr₅ _ _ => ?_
  rcases r with msg | authState
  · exact sees_fail
  refine sees_bind (F := fun _ _ => True) ?_ fun _ tr₆ _ _ => ?_
  · cases addData with
    | login d =>
        exact sees_mono (sees_cacheDel fun x => Op.SparesPasskeys.step
          (o := .cacheDel .webauthnData d.code) trivial tr₅ x) fun _ _ _ _ => trivial
    | service d => exact sees_ret trivial
    | test => exact sees_ret trivial
  refine sees_bind sees_randPart fun code tr₇ _ _ => ?_
  exact sees_bind sees_saveDataPart fun _ _ _ _ => sees_ret trivial

/-- The statements of a transaction whose entry has been deleted. -/
theorem step_of_dropped {ss : List DbWrite}
    (h : ∀ s ∈ ss, ChangesPasskeys userId s → DroppedPasskeys userId tr)
    (x : Except ErrorResponse Unit) : PasskeyStep data userId q tr ⟨.execute ss, x⟩ := by
  refine ⟨fun ls he => (by cases he), ?_, fun _ _ _ _ he => (by cases he)⟩
  rintro ⟨s, hs, hc⟩
  exact h s hs hc

theorem sees_dropPart {id : String} :
    Sees Op.Possible (PasskeyStep data userId q) (cacheDel .webauthn (PasskeyEntity.cacheIdxUser id))
      (fun _ tr' => id = userId → DroppedPasskeys userId tr') tr := by
  refine sees_mono (sees_cacheDel fun x =>
    Op.SparesPasskeys.step (o := .cacheDel .webauthn _) trivial tr x) fun _ tr' _ h => ?_
  rintro rfl
  rw [h]
  exact ⟨[], tr, rfl, by simp⟩

theorem sees_beginPart :
    Sees Op.Possible (PasskeyStep data userId q) (execute []) (fun _ _ => True) tr :=
  sees_mono (sees_execute fun x =>
    Op.SparesPasskeys.step (o := .execute []) (by simp [Op.SparesPasskeys]) tr x) fun _ _ _ _ => trivial

theorem sees_updatePasskey (e : PasskeyEntity) :
    Sees Op.Possible (PasskeyStep data userId q) e.updatePasskey (fun s tr' =>
      ChangesPasskeys userId s → DroppedPasskeys userId tr') tr := by
  refine sees_bind sees_beginPart fun _ tr₁ _ _ => ?_
  refine sees_bind (sees_cachePut fun x => Op.SparesPasskeys.step
    (o := .cachePut .webauthn _ (.passkey e)) (by simp [Op.SparesPasskeys, CacheVal.slot]) tr₁ x)
    fun _ tr₂ _ _ => ?_
  refine sees_bind sees_dropPart fun _ tr₃ _ h₃ => sees_ret ?_
  -- a row that the statement changes keeps its user
  rintro ⟨r, hr, hid⟩
  have hr : r.userId = e.userId := beq_iff_eq.mp (Bool.and_eq_true_iff.mp hr).1
  rcases hid with hid | hid
  · exact h₃ (hr.symm.trans hid)
  · exact h₃ (hr.symm.trans hid)

theorem sees_saveTxnPart (hq : ∀ id purpose, q ≠ .authStart id purpose) (u : User) {c : Prop}
    (h : c → DroppedPasskeys userId tr) :
    Sees Op.Possible (PasskeyStep data userId q) u.saveTxn (fun s tr' =>
      ¬ ChangesPasskeys userId s ∧ (c → DroppedPasskeys userId tr')) tr := by
  have hbegin : Touches [] [] (execute []) := touches_execute (by simp)
  refine sees_bind (sees_asidePart hq hbegin (by simp) (by simp)) fun _ tr₁ _ h₁ => ?_
  refine sees_bind (sees_asidePart hq (u.saveCached_touches none) (by simp) (by simp))
    fun _ tr₂ _ h₂ => sees_ret ⟨fun hc => hc, fun hc => ?_⟩
  obtain ⟨m₁, rfl, ha₁⟩ := h₁
  obtain ⟨m₂, rfl, ha₂⟩ := h₂
  exact ((h hc).grow ha₁).grow ha₂

theorem sees_updateCredentials (hq : ∀ id purpose, q ≠ .authStart id purpose)
    (result : AuthenticationResult) (user : User) (pks : List PasskeyEntity)
    (tr : List (Seen Op Op.Res)) :
    Sees Op.Possible (PasskeyStep data userId q) (updateCredentials data result user pks)
      (fun _ _ => True) tr := by
  induction pks generalizing user tr with
  | nil => exact sees_ret trivial
  | cons e es ih =>
      unfold updateCredentials
      split
      · exact ih user tr
      refine sees_bind (sees_unixTimestamp fun ms =>
        Op.SparesPasskeys.step (o := .now) trivial tr ms) fun now _ _ _ => ?_
      refine sees_bind sees_beginPart fun _ _ _ _ => ?_
      refine sees_bind (sees_updatePasskey _) fun updPasskey _ _ hpk => ?_
      refine sees_bind (sees_saveTxnPart hq _ hpk) fun updUser tr₃ _ hu => ?_
      refine sees_bind (sees_execute fun x => step_of_dropped ?_ x) fun _ _ _ _ => ih _ _
      intro s hs hc
      simp only [List.mem_cons, List.not_mem_nil, or_false] at hs
      rcases hs with rfl | rfl
      · exact hu.2 hc
      · exact absurd hc hu.1

theorem sees_authFinishPart (id : String) (req : WebauthnAuthFinishRequest) :
    Sees Op.Possible (PasskeyStep data userId (.authFinish id req)) (authFinish data id req)
      (fun _ _ => True) tr := by
  have hq : ∀ id' purpose, PasskeyCall.authFinish id req ≠ .authStart id' purpose :=
    fun _ _ he => by cases he
  refine sees_bind sees_findDataPart fun authData tr₁ _ _ => ?_
  refine sees_bind sees_unwrap fun authState tr₂ _ _ => ?_
  refine sees_bind (sees_readUser id) fun u tr₃ _ h₃ => ?_
  refine sees_bind (sees_passkeysFor false fun hid => ⟨u, h₃, hid, rfl⟩) fun pks tr₄ _ _ => ?_
  have hfinish : Sees Op.Possible (PasskeyStep data userId (.authFinish id req))
      (finishPasskeyAuthentication req.data authState) (fun _ _ => True) tr₄ :=
    sees_call (o := Op.finishPasskeyAuthentication _ _) (fun x _ => Op.SparesPasskeys.step
      (o := .finishPasskeyAuthentication _ _) trivial tr₄ x) fun _ _ => sees_ret trivial
  refine sees_bind hfinish fun r tr₅ _ _ => ?_
  rcases r with msg | result
  · exact sees_fail
  refine sees_bind sees_throwIf fun _ tr₆ _ _ => ?_
  exact sees_bind (sees_updateCredentials hq _ _ _ _) fun _ _ _ _ => sees_ret trivial

theorem sees_createPasskey (id uuid name : String) (pk : Passkey) (uv : Bool) :
    Sees Op.Possible (PasskeyStep data userId q) (PasskeyEntity.create id uuid name pk uv)
      (fun s tr' => ChangesPasskeys userId s → DroppedPasskeys userId tr') tr := by
  refine sees_bind (sees_unixTimestamp fun ms =>
    Op.SparesPasskeys.step (o := .now) trivial tr ms) fun now _ _ _ => ?_
  refine sees_bind sees_beginPart fun _ _ _ _ => ?_
  refine sees_bind sees_dropPart fun _ tr₃ _ h₃ => ?_
  refine sees_bind (sees_cacheDel fun x =>
    Op.SparesPasskeys.step (o := .cacheDel .webauthn _) trivial tr₃ x) fun _ tr₄ _ h₄ => sees_ret ?_
  intro hc
  rw [h₄]
  exact (h₃ hc).cons (Op.SparesPasskeys.aside (o := .cacheDel .webauthn _) trivial)

theorem sees_linkPasskey (hq : ∀ id purpose, q ≠ .authStart id purpose) (user : User) (uuid : String) :
    Sees Op.Possible (PasskeyStep data userId q) (linkPasskey data user uuid)
      (fun ss _ => ∀ s ∈ ss, ¬ ChangesPasskeys userId s) tr := by
  unfold linkPasskey
  split
  · exact sees_ret (by simp)
  · refine sees_bind (sees_saveTxnPart hq _ (c := False) False.elim) fun s _ _ h => sees_ret ?_
    rw [List.forall_mem_singleton]
    exact h.1

theorem sees_regFinishPart (id passkeyName cred : String) :
    Sees Op.Possible (PasskeyStep data userId (.regFinish id passkeyName cred))
      (regFinish data id passkeyName cred) (fun _ _ => True) tr := by
  have hq : ∀ id' purpose, PasskeyCall.regFinish id passkeyName cred ≠ .authStart id' purpose :=
    fun _ _ he => by cases he
  refine sees_bind (sees_readUser id) fun user tr₁ _ _ => ?_
  refine sees_bind (sees_cacheGet fun x =>
    Op.SparesPasskeys.step (o := .cacheGet .webauthn _) trivial tr₁ x) fun res _ _ _ => ?_
  refine sees_bind sees_okOr fun reg tr₃ _ _ => ?_
  refine sees_bind (sees_cacheDel fun x =>
    Op.SparesPasskeys.step (o := .cacheDel .webauthn _) trivial tr₃ x) fun _ tr₄ _ _ => ?_
  have hfinish : Sees Op.Possible (PasskeyStep data userId (.regFinish id passkeyName cred))
      (finishPasskeyRegistration cred reg.regState) (fun _ _ => True) tr₄ :=
    sees_call (o := Op.finishPasskeyRegistration _ _) (fun x _ => Op.SparesPasskeys.step
      (o := .finishPasskeyRegistration _ _) trivial tr₄ x) fun _ _ => sees_ret trivial
  refine sees_bind hfinish fun r _ _ _ => ?_
  rcases r with msg | ⟨pk, userVerified⟩
  · exact sees_fail
  refine sees_bind sees_throwIf fun _ _ _ _ => ?_
  refine sees_bind sees_beginPart fun _ _ _ _ => ?_
  refine sees_bind (sees_linkPasskey hq _ _) fun upd _ _ hupd => ?_
  refine sees_bind (sees_createPasskey _ _ _ _ _) fun ins _ _ hins => ?_
  refine sees_mono (sees_execute fun x => step_of_dropped ?_ x) fun _ _ _ _ => trivial
  intro s hs hc
  rcases List.mem_append.mp hs with hs | hs
  · exact absurd hc (hupd s hs)
  · rw [List.mem_singleton.mp hs] at hc
    exact hins hc

theorem sees_deleteByIdName (id name : String) :
    Sees Op.Possible (PasskeyStep data userId q) (PasskeyEntity.deleteByIdName id name)
      (fun s tr' => ChangesPasskeys userId s → DroppedPasskeys userId tr') tr := by
  have hdel : ∀ (k : String) (tr : List (Seen Op Op.Res)) (x : Except ErrorResponse Unit),
      PasskeyStep data userId q tr ⟨.cacheDel .webauthn k, x⟩ := fun k tr x =>
    Op.SparesPasskeys.step (o := .cacheDel .webauthn k) trivial tr x
  refine sees_bind sees_beginPart fun _ tr₁ _ _ => ?_
  refine sees_bind (sees_cacheDel (hdel _ tr₁)) fun _ tr₂ _ _ => ?_
  refine sees_bind sees_dropPart fun _ tr₃ _ h₃ => ?_
  refine sees_bind (sees_cacheDel (hdel _ tr₃)) fun _ tr₄ _ h₄ => sees_ret ?_
  rintro ⟨r, hr, hid⟩
  have hr : r.userId = id := beq_iff_eq.mp (Bool.and_eq_true_iff.mp hr).1
  rw [h₄]
  exact (h₃ (hr.symm.trans hid)).cons (Op.SparesPasskeys.aside (o := .cacheDel .webauthn _) trivial)

theorem expiresByPolicy_touches (policy : PasswordPolicy) (user : User) :
    Touches [] [] (expiresByPolicy policy user) := by
  unfold expiresByPolicy
  split
  · exact touches_ret _
  · split
    · exact touches_bind touches_unixTimestamp fun _ => touches_ret _
    · exact touches_ret _

theorem sees_unlinkPasskeys (hq : ∀ id purpose, q ≠ .authStart id purpose) (id : String)
    (pks : List PasskeyEntity) {c : Prop} (h : c → DroppedPasskeys userId tr) :
    Sees Op.Possible (PasskeyStep data userId q) (unlinkPasskeys id pks) (fun ss tr' =>
      (∀ s ∈ ss, ¬ ChangesPasskeys userId s) ∧ (c → DroppedPasskeys userId tr')) tr := by
  unfold unlinkPasskeys
  split
  · refine sees_bind (sees_asidePart hq (User.find_touches id) (by simp) (by simp))
      fun user tr₁ _ h₁ => ?_
    refine sees_bind (sees_asidePart hq PasswordPolicy.find_touches (by simp) (by simp))
      fun policy tr₂ _ h₂ => ?_
    refine sees_bind (sees_asidePart hq (expiresByPolicy_touches policy user) (by simp) (by simp))
      fun expires tr₃ _ h₃ => ?_
    obtain ⟨m₁, rfl, ha₁⟩ := h₁
    obtain ⟨m₂, rfl, ha₂⟩ := h₂
    obtain ⟨m₃, rfl, ha₃⟩ := h₃
    refine sees_bind (sees_saveTxnPart hq _ fun hc => (((h hc).grow ha₁).grow ha₂).grow ha₃)
      fun upd tr₄ _ h₄ => sees_ret ⟨?_, h₄.2⟩
    rw [List.forall_mem_singleton]
    exact h₄.1
  · exact sees_ret ⟨by simp, h⟩

theorem sees_deleteWebauthn (principal : Principal) (id name : String) :
    Sees Op.Possible (PasskeyStep data userId (.deleteWebauthn principal id name))
      (deleteWebauthn data principal id name) (fun _ _ => True) tr := by
  have hq : ∀ id' purpose, PasskeyCall.deleteWebauthn principal id name ≠ .authStart id' purpose :=
    fun _ _ he => by cases he
  refine sees_bind sees_answer fun _ tr₁ _ _ => ?_
  refine sees_bind (sees_passkeysFor false fun hid => ⟨hid, rfl⟩) fun pks _ _ _ => ?_
  refine sees_bind sees_beginPart fun _ _ _ _ => ?_
  refine sees_bind (sees_deleteByIdName id name) fun del _ _ hdel => ?_
  refine sees_bind (sees_unlinkPasskeys hq id pks hdel) fun upd _ _ hupd => ?_
  refine sees_mono (sees_execute fun x => step_of_dropped ?_ x) fun _ _ _ _ => trivial
  intro s hs hc
  rcases List.mem_cons.mp hs with rfl | hs
  · exact hupd.2 hc
  · exact absurd hc (hupd.1 s hs)

/-- **Each call keeps its promises.** -/
theorem sees_passkeyCall (q : PasskeyCall) :
    Sees Op.Possible (PasskeyStep data userId q) (q.prog data)
      (fun ls tr => q.Ends data userId ls tr) [] := by
  cases q with
  | findForUser id => exact sees_passkeysFor false fun hid => ⟨hid, rfl⟩
  | findForUserWithUv id => exact sees_passkeysFor true fun hid => ⟨hid, rfl⟩
  | convertToPasskey id => exact sees_bind (sees_convertToPasskey id) fun _ _ _ h => sees_ret h
  | authStart id purpose =>
      exact sees_bind (sees_authStartPart id purpose) fun _ _ _ _ => sees_ret trivial
  | authFinish id req =>
      exact sees_bind (sees_authFinishPart id req) fun _ _ _ _ => sees_ret trivial
  | regFinish id passkeyName cred =>
      exact sees_bind (sees_regFinishPart id passkeyName cred) fun _ _ _ _ => sees_ret trivial
  | deleteWebauthn principal id name =>
      exact sees_bind (sees_deleteWebauthn principal id name) fun _ _ _ _ => sees_ret trivial
  | other p ts cs h hts hcs =>
      exact sees_bind (sees_asidePart (fun _ _ he => by cases he) h hts hcs) fun _ _ _ _ =>
        sees_ret trivial

end Sees

/-! ### Orders of calls -/

abbrev PasskeyEvent := Event PasskeyCall Op Op.Res (Except (Fault ErrorResponse) (List PasskeyEntity))

abbrev PasskeyLog := Log PasskeyCall Op Op.Res (Except (Fault ErrorResponse) (List PasskeyEntity))

/-- A call that asks for `uv` has stored a list for the user, and since then the entry has not been
deleted. -/
def StoredFor (data : AppState) (userId : String) (uv : Bool) (l : PasskeyLog) : Prop :=
  ∃ l₂ t o x l₁ q, l = l₂ ++ .op t o x :: l₁ ∧ StoresPasskeys userId o ∧ .start t q ∈ l₁ ∧
    q.Asks data userId uv (seenBy t l₁) ∧
    ∀ t', .op t' (.cacheDel .webauthn (PasskeyEntity.cacheIdxUser userId)) (.ok ()) ∉ l₂

/-- One call after the other, and a call finds a list only if the calls that have stored one asked
for the same, or if all passkeys of the user are verified. -/
structure SameKind (data : AppState) (userId : String) (w : World) (l : PasskeyLog)
    (e : PasskeyEvent) : Prop where
  sequential : OneByOne w l e
  kind : ∀ t q ls, .start t q ∈ l →
    e = .op t (.cacheGet .webauthn (PasskeyEntity.cacheIdxUser userId)) (.ok (some (.passkeys ls))) →
    ∀ uv uv', q.Asks data userId uv (seenBy t l) → StoredFor data userId uv' l →
      uv = uv' ∨ AllVerified userId w.db

/-- **What is asked of the calls**: each query answers with the rows of the table; an account is
converted only if it has a verified passkey; and if user verification is forced, a ceremony is
started for verified passkeys only. -/
structure PasskeysServed (data : AppState) (userId : String) (w : World) (l : PasskeyLog) : Prop where
  all : ∀ t l' pks, l = .done t (.ok pks) :: l' → .start t (.findForUser userId) ∈ l' →
    pks = passkeysOf userId false w.db
  verified : ∀ t l' pks, l = .done t (.ok pks) :: l' → .start t (.findForUserWithUv userId) ∈ l' →
    pks = passkeysOf userId true w.db
  converts : ∀ t l' id pks, l = .done t (.ok pks) :: l' → .start t (.convertToPasskey id) ∈ l' →
    ∃ u, HasReadUser u (seenBy t l') ∧ (u.id = userId →
      ∃ pk ∈ w.db .passkeys, pk.userId = userId ∧ pk.userVerified = some true)
  offers : ∀ t l' id purpose pks x, l = .op t (.startPasskeyAuthentication pks) x :: l' →
    .start t (.authStart id purpose) ∈ l' → ∃ u, HasReadUser u (seenBy t l') ∧
      (u.id = userId → forceUv data u = true →
        pks = (passkeysOf userId true w.db).map PasskeyEntity.passkey)

/-- What holds in every state: one call is in flight; a cached list is what the query of the call
that has stored it selects; and what the call in flight has found is in the table. -/
structure PasskeyInv (data : AppState) (userId : String) (w : World) (l : PasskeyLog) : Prop where
  starts : ∀ t q q', .start t q ∈ l → .start t q' ∈ l → q = q'
  single : ∀ t t', Log.Running t l → Log.Running t' l → t = t'
  cached : ∀ ls, w.cache .webauthn (PasskeyEntity.cacheIdxUser userId) = some (.passkeys ls) →
    ∃ uv, StoredFor data userId uv l ∧ ls = passkeysOf userId uv w.db
  dropped : ∀ t, Log.Running t l → DroppedPasskeys userId (seenBy t l) →
    ∀ ls, w.cache .webauthn (PasskeyEntity.cacheIdxUser userId) ≠ some (.passkeys ls)
  found : ∀ t q uv ls, .start t q ∈ l → Log.Running t l →
    FoundPasskeys data userId q uv ls (seenBy t l) → ls = passkeysOf userId uv w.db
  served : PasskeysServed data userId w l

section Inv

variable {data : AppState} {userId : String} {w w' : World} {l : PasskeyLog} {t : ℕ}
  {q : PasskeyCall} {o : Op} {x : o.Res}
  {ls : List PasskeyEntity}

theorem StoredFor.cons {uv : Bool} (h : StoredFor data userId uv l) {e : PasskeyEvent}
    (he : ∀ t', e ≠ .op t' (.cacheDel .webauthn (PasskeyEntity.cacheIdxUser userId)) (.ok ())) :
    StoredFor data userId uv (e :: l) := by
  obtain ⟨l₂, t, o, x, l₁, q, rfl, ho, hq, hask, h₂⟩ := h
  refine ⟨e :: l₂, t, o, x, l₁, q, rfl, ho, hq, hask, fun t' hmem => ?_⟩
  rcases List.mem_cons.mp hmem with rfl | hmem
  · exact he t' rfl
  · exact h₂ t' hmem

/-- Only an operation that changes the passkeys of the user changes what is selected. -/
theorem passkeysOf_sem (h : sem o w x w') (ho : ¬ o.ChangesPasskeys userId) (uv : Bool) :
    passkeysOf userId uv w'.db = passkeysOf userId uv w.db := by
  cases o with
  | execute ss =>
      rcases sem_execute.mp h with ⟨e, -, rfl⟩ | ⟨db, hdb, rfl⟩
      · rfl
      · exact passkeysOf_applyAll hdb.applied (fun s hs hc => ho ⟨s, hs, hc⟩) uv
  | _ =>
      rw [passkeysOf, sem_table h List.not_mem_nil]
      rfl

/-- A list in the cache was there before, or it has just been stored. -/
theorem cachedPasskeys_sem (h : sem o w x w')
    (hls : w'.cache .webauthn (PasskeyEntity.cacheIdxUser userId) = some (.passkeys ls)) :
    w.cache .webauthn (PasskeyEntity.cacheIdxUser userId) = some (.passkeys ls) ∧
      (∀ y, (⟨o, x⟩ : Seen Op Op.Res) ≠
        ⟨.cacheDel .webauthn (PasskeyEntity.cacheIdxUser userId), .ok y⟩) ∨
      o = .cachePut .webauthn (PasskeyEntity.cacheIdxUser userId) (.passkeys ls) := by
  rcases sem_cache h hls with hold | hput
  · refine .inl ⟨hold, fun y he => ?_⟩
    cases he
    rcases sem_cacheDel.mp h with ⟨-, rfl⟩ | ⟨e, he, -⟩
    · rw [World.del_cache, if_pos ⟨rfl, rfl⟩] at hls
      cases hls
    · cases he
  · exact .inr hput

theorem passkeysRunning_op {t' : ℕ} : Log.Running t' (.op t o x :: l) ↔ Log.Running t' l := by
  simp [Log.Running]

theorem PasskeyInv.reads (hI : PasskeyInv data userId w l) (hq : .start t q ∈ l) (hx : sem o w x w')
    (hC : SameKind data userId w l (.op t o x)) {uv : Bool} (hs : ReadsPasskeys userId uv ls ⟨o, x⟩)
    (hask : q.Asks data userId uv (seenBy t l)) : ls = passkeysOf userId uv w.db := by
  rcases hs with he | he
  · cases he
    rcases sem_cacheGet.mp hx with ⟨hv, -⟩ | ⟨hv, -⟩ | ⟨e, hv, -⟩
    · obtain ⟨uv', hstored, rfl⟩ := hI.cached ls (Except.ok.inj hv).symm
      rcases hC.kind t q _ hq rfl uv uv' hask hstored with rfl | hall
      · rfl
      · rw [passkeysOf_verified hall uv, passkeysOf_verified hall uv']
    · cases hv
    · cases hv
  · cases he
    rcases (sem_select.mp hx).2 with hrows | ⟨e, he⟩
    · exact Except.ok.inj hrows
    · cases he

/-- **One operation keeps the invariant.** -/
theorem PasskeyInv.op (hI : PasskeyInv data userId w l) (hq : .start t q ∈ l)
    (hrun : Log.Running t l) (hx : sem o w x w') (hC : SameKind data userId w l (.op t o x))
    (hG : PasskeyStep data userId q (seenBy t l) ⟨o, x⟩) :
    PasskeyInv data userId w' (.op t o x :: l) := by
  have hstart : ∀ {t' q'}, (.start t' q' : PasskeyEvent) ∈ .op t o x :: l → .start t' q' ∈ l :=
    fun h => (List.mem_cons.mp h).resolve_left fun he => by cases he
  -- what the call has found still stands, if it changes nothing now
  have hfound : ∀ uv ls, FoundPasskeys data userId q uv ls (⟨o, x⟩ :: seenBy t l) →
      ls = passkeysOf userId uv w'.db := by
    rintro uv ls ⟨tr₂, s, tr₁, htr, hs, hask, h₂⟩
    rcases tr₂ with - | ⟨v, tr₂⟩
    · obtain ⟨rfl, rfl⟩ := List.cons.inj htr
      have hkeep : ¬ o.ChangesPasskeys userId := by
        rcases hs with he | he <;> cases he <;> exact not_false
      rw [passkeysOf_sem hx hkeep]
      exact hI.reads hq hx hC hs hask
    · obtain ⟨rfl, hrest⟩ := List.cons.inj htr
      rw [passkeysOf_sem hx (h₂ _ List.mem_cons_self)]
      exact hI.found t q uv ls hq hrun
        ⟨tr₂, s, tr₁, hrest, hs, hask, fun v hv => h₂ v (List.mem_cons_of_mem _ hv)⟩
  refine ⟨fun t' q₁ q₂ h₁ h₂ => hI.starts t' q₁ q₂ (hstart h₁) (hstart h₂),
    fun t₁ t₂ h₁ h₂ => hI.single t₁ t₂ (passkeysRunning_op.mp h₁) (passkeysRunning_op.mp h₂),
    fun ls hls => ?_, fun t' h hd ls hls => ?_, fun t' q' uv ls hq' h hf => ?_, ?_⟩
  · rcases cachedPasskeys_sem hx hls with ⟨hold, hne⟩ | rfl
    · obtain ⟨uv, hstored, rfl⟩ := hI.cached ls hold
      have hkeep : ¬ o.ChangesPasskeys userId := fun hc =>
        hI.dropped t hrun (hG.writes hc) _ hold
      exact ⟨uv, hstored.cons fun t' he => hne () (by cases he; rfl),
        (passkeysOf_sem hx hkeep uv).symm⟩
    · -- it is stored as it was read
      obtain ⟨uv, tr', htr, hask⟩ := hG.puts ls rfl
      have hmono : q.Asks data userId uv (seenBy t l) := hask.mono fun v hv => by
        rw [htr]
        exact List.mem_cons_of_mem _ hv
      refine ⟨uv, ⟨[], t, _, x, l, q, rfl, ⟨ls, rfl⟩, hq, hmono, by simp⟩, ?_⟩
      rw [passkeysOf_sem hx not_false]
      exact hI.found t q uv ls hq hrun ⟨[], _, tr', htr, .inr rfl, hask, by simp⟩
  · obtain rfl := hI.single t' t (passkeysRunning_op.mp h) hrun
    rw [seenBy_op_self] at hd
    obtain ⟨tr₂, tr₁, htr, h₂⟩ := hd
    rcases tr₂ with - | ⟨v, tr₂⟩
    · obtain ⟨he, -⟩ := List.cons.inj htr
      rcases cachedPasskeys_sem hx hls with ⟨-, hne⟩ | rfl
      · exact hne () he
      · cases he
    · obtain ⟨rfl, hrest⟩ := List.cons.inj htr
      rcases cachedPasskeys_sem hx hls with ⟨hold, -⟩ | rfl
      · exact hI.dropped t' hrun
          ⟨tr₂, tr₁, hrest, fun v hv => h₂ v (List.mem_cons_of_mem _ hv)⟩ ls hold
      · exact h₂ _ List.mem_cons_self ⟨ls, rfl⟩
  · obtain rfl := hI.single t' t (passkeysRunning_op.mp h) hrun
    obtain rfl := hI.starts t' q' q (hstart hq') hq
    rw [seenBy_op_self] at hf
    exact hfound uv ls hf
  · refine ⟨fun _ _ _ he => (by cases he), fun _ _ _ he => (by cases he),
      fun _ _ _ _ he => (by cases he), ?_⟩
    rintro t' l' id purpose pks y he hq'
    cases he
    obtain rfl := hI.starts t _ _ hq' hq
    obtain ⟨u, ls, hu, rfl, hls⟩ := hG.offers id purpose pks rfl rfl
    refine ⟨u, hu, fun hid huv => ?_⟩
    rw [passkeysOf_sem hx not_false, hI.found t _ true ls hq hrun (huv ▸ hls hid)]

theorem PasskeyInv.init (h : ∀ ls, w.cache .webauthn (PasskeyEntity.cacheIdxUser userId) ≠
    some (.passkeys ls)) : PasskeyInv data userId w [] where
  starts t q q' hq := by cases hq
  single t t' ht := by cases ht.1.choose_spec
  cached ls hls := absurd hls (h ls)
  dropped t ht := by cases ht.1.choose_spec
  found t q uv ls hq := by cases hq
  served := ⟨fun _ _ _ he => (by cases he), fun _ _ _ he => (by cases he),
    fun _ _ _ _ he => (by cases he), fun _ _ _ _ _ _ he => (by cases he)⟩

theorem PasskeyInv.start (hI : PasskeyInv data userId w l) (ht : Log.Fresh t l)
    (hC : SameKind data userId w l (.start t q)) : PasskeyInv data userId w (.start t q :: l) := by
  have hrunning : ∀ t', Log.Running t' (.start t q :: l) → t' = t := by
    rintro t' ⟨⟨q', hq'⟩, hno⟩
    by_contra hne
    have hq' : .start t' q' ∈ l := (List.mem_cons.mp hq').resolve_left fun he => hne (by cases he; rfl)
    exact hC.sequential t q rfl t' ⟨⟨q', hq'⟩, fun a ha => hno a (List.mem_cons_of_mem _ ha)⟩
  have hseen : seenBy t (.start t q :: l) = [] := seenBy_start.trans (seenBy_of_fresh ht)
  refine ⟨?_, fun t₁ t₂ h₁ h₂ => (hrunning t₁ h₁).trans (hrunning t₂ h₂).symm, fun ls hls => ?_,
    fun t' h hd => ?_, fun t' q' uv ls _ h hf => ?_, ?_⟩
  · intro t' q₁ q₂ h₁ h₂
    rcases List.mem_cons.mp h₁ with he₁ | h₁ <;> rcases List.mem_cons.mp h₂ with he₂ | h₂
    · cases he₁
      cases he₂
      rfl
    · cases he₁
      exact absurd rfl (ht _ h₂)
    · cases he₂
      exact absurd rfl (ht _ h₁)
    · exact hI.starts t' q₁ q₂ h₁ h₂
  · obtain ⟨uv, hstored, hls⟩ := hI.cached ls hls
    exact ⟨uv, hstored.cons fun t' he => (by cases he), hls⟩
  · obtain rfl := hrunning t' h
    rw [hseen] at hd
    obtain ⟨tr₂, tr₁, htr, -⟩ := hd
    simp at htr
  · obtain rfl := hrunning t' h
    rw [hseen] at hf
    obtain ⟨tr₂, s, tr₁, htr, -⟩ := hf
    simp at htr
  · exact ⟨fun _ _ _ he => (by cases he), fun _ _ _ he => (by cases he),
      fun _ _ _ _ he => (by cases he), fun _ _ _ _ _ _ he => (by cases he)⟩

/-- A call ends, and what it answers has just been found. -/
theorem PasskeyInv.finish (hI : PasskeyInv data userId w l) (hq : .start t q ∈ l)
    (hrun : Log.Running t l) {r : Except (Fault ErrorResponse) (List PasskeyEntity)}
    (hF : ∀ ls, r = .ok ls → q.Ends data userId ls (seenBy t l)) :
    PasskeyInv data userId w (.done t r :: l) := by
  have hstart : ∀ {t' q'}, (.start t' q' : PasskeyEvent) ∈ .done t r :: l → .start t' q' ∈ l :=
    fun h => (List.mem_cons.mp h).resolve_left fun he => by cases he
  have hrunning : ∀ {t'}, Log.Running t' (.done t r :: l) → Log.Running t' l := by
    rintro t' ⟨⟨q', hq'⟩, hno⟩
    exact ⟨⟨q', hstart hq'⟩, fun a ha => hno a (List.mem_cons_of_mem _ ha)⟩
  refine ⟨fun t' q₁ q₂ h₁ h₂ => hI.starts t' q₁ q₂ (hstart h₁) (hstart h₂),
    fun t₁ t₂ h₁ h₂ => hI.single t₁ t₂ (hrunning h₁) (hrunning h₂), fun ls hls => ?_,
    fun t' h hd => hI.dropped t' (hrunning h) hd,
    fun t' q' uv ls hq' h hf => hI.found t' q' uv ls (hstart hq') (hrunning h) hf, ?_, ?_, ?_,
    fun _ _ _ _ _ _ he => (by cases he)⟩
  · obtain ⟨uv, hstored, hls⟩ := hI.cached ls hls
    exact ⟨uv, hstored.cons fun t' he => (by cases he), hls⟩
  · rintro t' l' pks he hq'
    cases he
    obtain rfl := hI.starts t _ _ hq' hq
    exact hI.found t _ false pks hq hrun (hF pks rfl rfl)
  · rintro t' l' pks he hq'
    cases he
    obtain rfl := hI.starts t _ _ hq' hq
    exact hI.found t _ true pks hq hrun (hF pks rfl rfl)
  · rintro t' l' id pks he hq'
    cases he
    obtain rfl := hI.starts t _ _ hq' hq
    obtain ⟨u, ls, hu, hne, hls⟩ := hF pks rfl
    refine ⟨u, hu, fun hid => ?_⟩
    have heq := hI.found t _ true ls hq hrun (hls hid)
    obtain ⟨pk, hpk⟩ := List.exists_mem_of_ne_nil ls hne
    rw [heq] at hpk
    obtain ⟨hmem, hpk⟩ := List.mem_filter.mp hpk
    obtain ⟨hown, hver⟩ := Bool.and_eq_true_iff.mp hpk
    exact ⟨pk, hmem, beq_iff_eq.mp hown, beq_iff_eq.mp hver⟩

end Inv

/-- **The passkeys of a user**: in every order of calls in which a list in the cache is found only
by calls that ask for the same as those that have stored it, or while all passkeys of the user are
verified, every call answers from the table. -/
theorem passkeys_served (data : AppState) (userId : String) {w₀ : World}
    (h₀ : ∀ ls, w₀.cache .webauthn (PasskeyEntity.cacheIdxUser userId) ≠ some (.passkeys ls))
    {P : Pool PasskeyCall Op Op.Res World (Fault ErrorResponse) (List PasskeyEntity)}
    (h : Run (PasskeyCall.prog data) sem (SameKind data userId) (init w₀) P) :
    PasskeysServed data userId P.world P.log :=
  (Run.inv_of_seen (A := fun _ => Op.Possible) (G := PasskeyStep data userId)
    (F := fun q r tr => ∀ ls, r = .ok ls → q.Ends data userId ls tr)
    (I := PasskeyInv data userId) sees_passkeyCall (fun w _ _ _ _ _ w' _ _ hx _ => ⟨w, w', hx⟩)
    (.init h₀) (fun _ _ _ _ hI ht hC => hI.start ht hC)
    (fun _ _ _ _ _ _ _ hI hq hrun hx hC hG => hI.op hq hrun hx hC hG)
    (fun _ _ _ _ _ hI hq hrun _ hF => hI.finish hq hrun hF) h).1.served

/-! ### A passkey without user verification -/

def samplePasskey (name : String) (uv : Bool) : PasskeyEntity where
  userId := "alice"
  name := name
  passkeyUserId := "uuid"
  passkey := ⟨Text.asBytes name, 0⟩
  credentialId := Text.asBytes name
  registered := 0
  lastUsed := 0
  userVerified := some uv

/-- Alice has a password and these passkeys. -/
def keysWorld (pks : List PasskeyEntity) : World where
  clock := 0
  issued := ["uuid"]
  db
    | .users => [{ sampleUser with webauthnUserId := some "uuid" }]
    | .passkeys => pks
    | _ => []
  cache _ _ := none

/-- One call after the other, and no list is found in the cache. -/
def missesPasskeys (w : World) (l : PasskeyLog) (e : PasskeyEvent) : Bool :=
  match e with
  | .op _ (.cacheGet .webauthn _) (.ok (some _)) => false
  | _ => decide (OneByOne w l e)

theorem sameKind_of_misses {data : AppState} {w : World} {l : PasskeyLog} {e : PasskeyEvent}
    (h : missesPasskeys w l e = true) : SameKind data userId w l e := by
  unfold missesPasskeys at h
  split at h
  · cases h
  · next hne => exact ⟨of_decide_eq_true h, fun t q ls _ he => (hne _ _ _ he).elim⟩

/-- The call that has just been answered, and its answer. -/
def justAnswered : PasskeyLog → Option (ℕ × List PasskeyEntity)
  | .done t (.ok pks) :: _ => some (t, pks)
  | _ => none

theorem eq_of_justAnswered {l : PasskeyLog} {t : ℕ} {pks : List PasskeyEntity}
    (h : justAnswered l = some (t, pks)) : l = .done t (.ok pks) :: l.tail := by
  unfold justAnswered at h
  split at h
  · cases h
    rfl
  · cases h

/-- Both queries, the second of which finds no entry any more. -/
def bothQueries : List (Move PasskeyCall Choice) :=
  [.start 0 (.findForUser "alice"), .op 0 .ok, .op 0 .ok, .op 0 .ok, .done 0,
    .start 1 (.findForUserWithUv "alice"), .op 1 .miss, .op 1 .ok, .op 1 .ok, .done 1]

theorem passkeys_served_miss : ∃ P : Pool PasskeyCall Op Op.Res World (Fault ErrorResponse)
    (List PasskeyEntity), Run (PasskeyCall.prog sampleState) sem (SameKind sampleState "alice")
      (init (keysWorld [samplePasskey "a" true, samplePasskey "b" false])) P ∧
      justAnswered P.log = some (1, [samplePasskey "a" true]) ∧
      PasskeysServed sampleState "alice" P.world P.log := by
  obtain ⟨P, hrun, hP⟩ := exists_run_of_moves (C := SameKind sampleState "alice")
    (PasskeyCall.prog sampleState) Op.run missesPasskeys
    (keysWorld [samplePasskey "a" true, samplePasskey "b" false]) bothQueries
    (fun P => decide (justAnswered P.log = some (1, [samplePasskey "a" true]))) (by decide +kernel)
    (fun _ _ _ h => sameKind_of_misses h)
  exact ⟨P, hrun, of_decide_eq_true hP,
    passkeys_served sampleState "alice" (fun ls h => by cases h) hrun⟩

/-- The call asks for the verified passkeys of alice, or converts her account. -/
def isUvCall : PasskeyCall → Bool
  | .findForUserWithUv id => id == "alice"
  | _ => false

def isConversion : PasskeyCall → Bool
  | .convertToPasskey _ => true
  | _ => false

/-- All passkeys are asked for, and then the verified ones: the first call has filled the entry. -/
def sharedEntry : List (Move PasskeyCall Choice) :=
  [.start 0 (.findForUser "alice"), .op 0 .ok, .op 0 .ok, .op 0 .ok, .done 0,
    .start 1 (.findForUserWithUv "alice"), .op 1 .ok, .done 1]

/-- The same before the account is converted. -/
def sharedConversion : List (Move PasskeyCall Choice) :=
  [.start 0 (.findForUser "alice"), .op 0 .ok, .op 0 .ok, .op 0 .ok, .done 0,
    .start 1 (.convertToPasskey "alice"), .op 1 .ok, .op 1 .ok, .op 1 .ok, .op 1 .ok, .op 1 .ok,
    .op 1 .ok, .op 1 .ok, .done 1]

/-- **A passkey without user verification is served** as a verified one, and the password of an
account that has no other passkey is deleted. -/
theorem presence_key_served :
    (∃ P, Run (PasskeyCall.prog sampleState) sem OneByOne (init (keysWorld [samplePasskey "a" false]))
      P ∧ justAnswered P.log = some (1, [samplePasskey "a" false]) ∧
      ¬ PasskeysServed sampleState "alice" P.world P.log) ∧
    ∃ P, Run (PasskeyCall.prog sampleState) sem OneByOne (init (keysWorld [samplePasskey "a" false]))
      P ∧ justAnswered P.log = some (1, []) ∧ (∀ u ∈ P.world.db .users, u.password = none) ∧
      (∃ id, .start 1 (.convertToPasskey id) ∈ P.log) ∧
      ∀ pk ∈ P.world.db .passkeys, pk.userVerified = some false := by
  constructor
  · obtain ⟨P, hrun, hP⟩ := exists_run_of_moves (C := OneByOne) (PasskeyCall.prog sampleState) Op.run
      (fun w l e => decide (OneByOne w l e)) (keysWorld [samplePasskey "a" false]) sharedEntry
      (fun P => decide (justAnswered P.log = some (1, [samplePasskey "a" false])) &&
        (Log.startOf 1 P.log.tail).any isUvCall && (passkeysOf "alice" true P.world.db).isEmpty)
      (by decide +kernel) (fun _ _ _ h => of_decide_eq_true h)
    obtain ⟨h, hnone⟩ := Bool.and_eq_true_iff.mp hP
    obtain ⟨hans, hstart⟩ := Bool.and_eq_true_iff.mp h
    have hans := of_decide_eq_true hans
    refine ⟨P, hrun, hans, fun hserved => ?_⟩
    obtain ⟨q, hq, hcall⟩ := (Option.any_eq_true _ _).mp hstart
    cases q with
    | findForUserWithUv id =>
        obtain rfl : id = "alice" := beq_iff_eq.mp hcall
        have heq := hserved.verified 1 _ _ (eq_of_justAnswered hans) (Log.mem_of_startOf hq)
        rw [List.isEmpty_iff.mp hnone] at heq
        cases heq
    | _ => cases hcall
  · obtain ⟨P, hrun, hP⟩ := exists_run_of_moves (C := OneByOne) (PasskeyCall.prog sampleState) Op.run
      (fun w l e => decide (OneByOne w l e)) (keysWorld [samplePasskey "a" false]) sharedConversion
      (fun P => decide (justAnswered P.log = some (1, [])) && (Log.startOf 1 P.log).any isConversion &&
        (P.world.db .users).all (fun u => u.password.isNone) &&
        (P.world.db .passkeys).all fun pk => pk.userVerified == some false)
      (by decide +kernel) (fun _ _ _ h => of_decide_eq_true h)
    obtain ⟨h, hkeys⟩ := Bool.and_eq_true_iff.mp hP
    obtain ⟨h, husers⟩ := Bool.and_eq_true_iff.mp h
    obtain ⟨hans, hstart⟩ := Bool.and_eq_true_iff.mp h
    obtain ⟨q, hq, hcall⟩ := (Option.any_eq_true _ _).mp hstart
    refine ⟨P, hrun, of_decide_eq_true hans, fun u hu => ?_, ?_, fun pk hpk => ?_⟩
    · exact Option.isNone_iff_eq_none.mp (List.all_eq_true.mp husers u hu)
    · cases q with
      | convertToPasskey id => exact ⟨id, Log.mem_of_startOf hq⟩
      | _ => cases hcall
    · exact beq_iff_eq.mp (List.all_eq_true.mp hkeys pk hpk)

end Rauthy
