/-
Rauthy/DeviceExpiry.lean

Devices and their refresh tokens: how long the one and the other live, and what the scheduler
deletes.

When a device is issued, its `refresh_exp` is a constant 48 hours behind the end of its access
token.  The `exp` of the refresh token is computed later, in another function, from the configured
lifetime and from another reading of the clock.  `devices_cleanup` trusts the former, and the
foreign key takes the token along.

Main results:
  * `DevicesOk.spared`: if devices outlive their tokens, the cleanup deletes no token that is good;
  * `devices_outlive_tokens`: they do after every history of calls in which each poll of a device is
    quick enough for the configured lifetime.
-/
import Rauthy.Auth
import Rauthy.Userinfo

namespace Rauthy

open Prog

/-! ### The calls -/

/-- `DeviceEntity::update_name` -/
def DeviceEntity.updateName (deviceId userId name : String) : M ErrorResponse Unit :=
  execute [.update .devices (fun d => d.id == deviceId && d.userId == some userId)
    fun d => { d with name }]

/-- `DeviceEntity::revoke_refresh_tokens`, with `RefreshTokenDevice::invalidate_all_for_device` -/
def DeviceEntity.revokeRefreshTokens (deviceId : String) : M ErrorResponse Unit := do
  execute [.delete .refreshTokensDevices fun rt => rt.deviceId == deviceId]
  execute [.update .devices (fun d => d.id == deviceId) fun d => { d with refreshExp := none }]

/-- `delete_user_device`, for a principal that may do this. -/
def deleteUserDevice (userId deviceId : String) : M ErrorResponse Unit := do
  let device ← DeviceEntity.find deviceId
  throwIf (device.userId ≠ some userId) (err .forbidden "You don't have access to this device")
  DeviceEntity.revokeRefreshTokens deviceId

/-- The condition of `devices_cleanup` -/
def DeviceEntity.expiredBefore (threshold : Int) (d : DeviceEntity) : Bool :=
  decide (d.accessExp < threshold) && d.refreshExp.all fun e => decide (e < threshold)

/-- One run of `devices_cleanup`: the foreign key deletes the tokens along. -/
def devicesCleanup (isHaLeader : Option Bool) : M ErrorResponse Unit :=
  if isHaLeader = some false then return ()
  else do
    let now ← unixTimestamp
    let threshold := now - 24 * 3600
    ignoreErr do
      let devices ← select .devices fun d => d.expiredBefore threshold
      execute [.delete .devices fun d => d.expiredBefore threshold,
        .delete .refreshTokensDevices fun rt => devices.any fun d => d.id == rt.deviceId]

/-! ### What the other calls do -/

/-- The statement gives no token to a device and takes no time from one. -/
def DbWrite.KeepsCovered : DbWrite → Prop
  | .delete _ _ => True
  | .cascade _ _ => True
  | .update .devices _ f => ∀ d : DeviceEntity, (f d).id = d.id ∧ (f d).refreshExp = d.refreshExp
  | .update .refreshTokensDevices _ f =>
      ∀ rt : RefreshTokenDevice, (f rt).deviceId = rt.deviceId ∧ (f rt).exp ≤ rt.exp
  | s => s.table ≠ .devices ∧ s.table ≠ .refreshTokensDevices

def Op.KeepsCovered : Op → Prop
  | .execute ss => ∀ s ∈ ss, s.KeepsCovered
  | _ => True

/-- The calls of a history.  `other` is everything else that a server does meanwhile: it may delete
users, clients and tokens, and let the clock advance. -/
inductive DeviceCall where
  | poll (peerIp : Option String) (payload : TokenRequest)
  | revoke (userId deviceId : String)
  | rename (deviceId userId name : String)
  | cleanup (isHaLeader : Option Bool)
  | other (p : M ErrorResponse Unit) (hp : p.Within Op.KeepsCovered)

def DeviceCall.prog (data : AppState) : DeviceCall → M ErrorResponse Unit
  | poll peerIp payload => do
      let _ ← grantTypeDeviceCode data peerIp payload
      return ()
  | revoke userId deviceId => deleteUserDevice userId deviceId
  | rename deviceId userId name => DeviceEntity.updateName deviceId userId name
  | cleanup isHaLeader => devicesCleanup isHaLeader
  | other p _ => p

/-- The lifetimes of the clients are not negative. -/
def LifetimesOk (w : World) : Prop :=
  ∀ c, (c ∈ w.db .clients ∨ ∃ k, w.cache .c12hr k = some (.client c)) → 0 ≤ c.accessTokenLifetime

/-- A poll takes so few seconds that, together with the lifetime of a refresh token, they fit into
the 48 hours and the minute by which the token is valid early. -/
def QuickPoll (data : AppState) (w w' : World) : DeviceCall → Prop
  | .poll _ _ => LifetimesOk w ∧
      w'.clock / 1000 - w.clock / 1000 + data.deviceGrantRefreshTokenLifetime * 3600 ≤
        48 * 3600 + 60
  | _ => True

/-- The world after calls that all satisfy `C`, from one in which no device has a token. -/
inductive DeviceHistory (data : AppState) (C : World → World → DeviceCall → Prop) : World → Prop
  | start {w : World} (hempty : w.db .refreshTokensDevices = []) : DeviceHistory data C w
  | step {w w' : World} {c : DeviceCall} {r : Except (Fault ErrorResponse) Unit}
      (h : DeviceHistory data C w) (hC : C w w' c) (hx : Exec sem (c.prog data) w r w') :
      DeviceHistory data C w'

/-- The `refresh_exp` of a device is not before the `exp` of its tokens. -/
def DevicesCovered (db : Db) : Prop :=
  ∀ rt ∈ db .refreshTokensDevices, ∀ d ∈ db .devices, d.id = rt.deviceId →
    ∃ e, d.refreshExp = some e ∧ rt.exp ≤ e

/-- A run of the cleanup spares the devices that have a good token, and their tokens. -/
def DevicesSpared (w : World) : Prop :=
  ∀ isHaLeader r w', Exec sem (devicesCleanup isHaLeader) w r w' →
    ∀ rt ∈ w.db .refreshTokensDevices, w'.clock / 1000 ≤ rt.exp →
      rt ∈ w'.db .refreshTokensDevices ∧
      ∀ d ∈ w.db .devices, d.id = rt.deviceId → d ∈ w'.db .devices

/-- The invariant: devices cover their tokens, and the ids in the tokens are ids that were drawn. -/
structure DevicesOk (w : World) : Prop where
  covered : DevicesCovered w.db
  issued : ∀ rt ∈ w.db .refreshTokensDevices, rt.deviceId ∈ w.issued

/-! ### Steps that keep it -/

/-- Tokens have only become fewer or older, and devices fewer. -/
structure TokensLowered (db db' : Db) : Prop where
  tokens : ∀ rt' ∈ db' .refreshTokensDevices, ∃ rt ∈ db .refreshTokensDevices,
    rt'.deviceId = rt.deviceId ∧ rt'.exp ≤ rt.exp
  devices : ∀ d' ∈ db' .devices, ∃ d ∈ db .devices, d'.id = d.id ∧ d'.refreshExp = d.refreshExp

/-- `TokensLowered`, some time later. -/
structure Later (w w' : World) : Prop where
  lowered : TokensLowered w.db w'.db
  issued : ∀ s ∈ w.issued, s ∈ w'.issued
  clock : w.clock ≤ w'.clock

section Steps

variable {data : AppState} {w w' w'' : World} {db db' db'' : Db}
  {α : Type}
  {cs : List (CacheName × Slot)}

theorem TokensLowered.refl (db : Db) : TokensLowered db db :=
  ⟨fun rt h => ⟨rt, h, rfl, Int.le_refl _⟩, fun d h => ⟨d, h, rfl, rfl⟩⟩

theorem TokensLowered.trans (h₁ : TokensLowered db db') (h₂ : TokensLowered db' db'') :
    TokensLowered db db'' := by
  refine ⟨fun rt'' hrt => ?_, fun d'' hd => ?_⟩
  · obtain ⟨rt', hrt', hid', hexp'⟩ := h₂.tokens rt'' hrt
    obtain ⟨rt, hrt, hid, hexp⟩ := h₁.tokens rt' hrt'
    exact ⟨rt, hrt, hid'.trans hid, Int.le_trans hexp' hexp⟩
  · obtain ⟨d', hd', hid', hexp'⟩ := h₂.devices d'' hd
    obtain ⟨d, hd, hid, hexp⟩ := h₁.devices d' hd'
    exact ⟨d, hd, hid'.trans hid, hexp'.trans hexp⟩

theorem Later.refl (w : World) : Later w w :=
  ⟨TokensLowered.refl _, fun _ h => h, Int.le_refl _⟩

theorem Later.trans (h₁ : Later w w') (h₂ : Later w' w'') : Later w w'' :=
  ⟨h₁.lowered.trans h₂.lowered, fun s hs => h₂.issued s (h₁.issued s hs), h₁.clock.trans h₂.clock⟩

theorem DevicesCovered.lowered (h : DevicesCovered db) (hl : TokensLowered db db') :
    DevicesCovered db' := by
  intro rt' hrt' d' hd' hid
  obtain ⟨rt, hrt, hrid, hexp⟩ := hl.tokens rt' hrt'
  obtain ⟨d, hd, hdid, hrefresh⟩ := hl.devices d' hd'
  obtain ⟨e, he, hle⟩ := h rt hrt d hd (by rw [← hdid, hid, hrid])
  exact ⟨e, hrefresh.trans he, hexp.trans hle⟩

theorem DevicesOk.later (h : DevicesOk w) (hl : Later w w') : DevicesOk w' := by
  refine ⟨h.covered.lowered hl.lowered, fun rt' hrt' => ?_⟩
  obtain ⟨rt, hrt, hid, -⟩ := hl.lowered.tokens rt' hrt'
  rw [hid]
  exact hl.issued _ (h.issued rt hrt)

theorem DbWrite.KeepsCovered.apply {s : DbWrite} (hs : s.KeepsCovered)
    (h : s.apply db = some db') : TokensLowered db db' := by
  -- a statement about another table
  have hother : s.table ≠ .devices ∧ s.table ≠ .refreshTokensDevices → TokensLowered db db' := by
    rintro ⟨hd, hrt⟩
    refine ⟨fun rt hmem => ⟨rt, ?_, rfl, Int.le_refl _⟩, fun d hmem => ⟨d, ?_, rfl, rfl⟩⟩
    · rwa [DbWrite.apply_frame h hrt] at hmem
    · rwa [DbWrite.apply_frame h hd] at hmem
  -- a statement that only removes rows
  have hless : ∀ (t : Table) (p : Row t → Bool),
      TokensLowered db (Function.update db t ((db t).filter p)) := by
    intro t p
    have hsub : ∀ {t' : Table} {r : Row t'},
        r ∈ Function.update db t ((db t).filter p) t' → r ∈ db t' := by
      intro t' r hr
      by_cases ht : t' = t
      · subst ht
        rw [Function.update_self] at hr
        exact (List.mem_filter.mp hr).1
      · rwa [Function.update_of_ne ht] at hr
    exact ⟨fun rt hrt => ⟨rt, hsub hrt, rfl, Int.le_refl _⟩, fun d hd => ⟨d, hsub hd, rfl, rfl⟩⟩
  cases s with
  | delete t p =>
      cases h
      exact hless t _
  | cascade t p =>
      cases h
      exact hless t _
  | update t p f =>
      cases t with
      | devices =>
          cases h
          refine ⟨fun rt hrt => ⟨rt, hrt, rfl, Int.le_refl _⟩, fun d' hd' => ?_⟩
          rw [Function.update_self] at hd'
          obtain ⟨d, hd, rfl⟩ := List.mem_map.mp hd'
          refine ⟨d, hd, ?_⟩
          split
          · exact hs d
          · exact ⟨rfl, rfl⟩
      | refreshTokensDevices =>
          cases h
          refine ⟨fun rt' hrt' => ?_, fun d hd => ⟨d, hd, rfl, rfl⟩⟩
          rw [Function.update_self] at hrt'
          obtain ⟨rt, hrt, rfl⟩ := List.mem_map.mp hrt'
          refine ⟨rt, hrt, ?_⟩
          split
          · exact hs rt
          · exact ⟨rfl, Int.le_refl _⟩
      | _ => exact hother hs
  | insert t r => exact hother hs
  | upsert t r => exact hother hs

theorem lowered_applyAll {ss : List DbWrite} (hs : ∀ s ∈ ss, s.KeepsCovered)
    (h : applyAll ss db = some db') : TokensLowered db db' := by
  induction ss generalizing db with
  | nil =>
      cases h
      exact TokensLowered.refl _
  | cons s ss ih =>
      obtain ⟨db₁, h₁, h₂⟩ := Option.bind_eq_some_iff.mp h
      obtain ⟨hhead, htail⟩ := List.forall_mem_cons.mp hs
      exact (hhead.apply h₁).trans (ih htail h₂)

theorem later_sem {o : Op} {x : o.Res} (ho : o.KeepsCovered) (h : sem o w x w') : Later w w' := by
  cases o with
  | execute ss =>
      rcases sem_execute.mp h with ⟨e, -, rfl⟩ | ⟨db, hdb, rfl⟩
      · exact Later.refl _
      · exact ⟨lowered_applyAll ho hdb.applied, fun _ h => h, Int.le_refl _⟩
  | _ =>
      obtain ⟨cs, hframe⟩ := sem_tables h
      have hdb : w'.db = w.db := funext fun t => hframe.db t List.not_mem_nil
      exact ⟨hdb ▸ TokensLowered.refl _, hframe.issued, hframe.clock⟩

theorem later_of_within {p : M ErrorResponse α} (hp : p.Within Op.KeepsCovered) :
    Outcomes sem p w fun _ w' => Later w w' := fun _ _ hx =>
  hx.rel (T := Later) hp Later.refl (fun _ _ _ => Later.trans) fun _ ho _ _ _ h => later_sem ho h

theorem keepsCovered_of_touches {ε : Type} {p : M ε α} {ts : List Table} (hp : Touches ts cs p)
    (hd : Table.devices ∉ ts) (hrt : Table.refreshTokensDevices ∉ ts) :
    p.Within Op.KeepsCovered := by
  refine Within.mono hp fun o ho => ?_
  cases o with
  | execute ss =>
      intro s hs
      have hother : s.table ≠ .devices ∧ s.table ≠ .refreshTokensDevices :=
        ⟨fun he => hd (he ▸ ho s hs), fun he => hrt (he ▸ ho s hs)⟩
      cases s with
      | delete t p => trivial
      | cascade t p => trivial
      | update t p f =>
          cases t with
          | devices => exact absurd rfl hother.1
          | refreshTokensDevices => exact absurd rfl hother.2
          | _ => exact hother
      | insert t r => exact hother
      | upsert t r => exact hother
  | _ => trivial

theorem later_of_touches {p : M ErrorResponse α} {ts : List Table} (hp : Touches ts cs p)
    (hd : Table.devices ∉ ts) (hrt : Table.refreshTokensDevices ∉ ts) :
    Outcomes sem p w fun _ w' => Later w w' :=
  later_of_within (keepsCovered_of_touches hp hd hrt)

theorem DevicesOk.revoke (h : DevicesOk w) (deviceId : String) :
    Outcomes sem (DeviceEntity.revokeRefreshTokens deviceId) w fun _ w' => DevicesOk w' := by
  have hdelete : ∀ db, applyAll [.delete .refreshTokensDevices fun rt => rt.deviceId == deviceId]
      w.db = some db → DevicesOk { w with db } ∧
        ∀ rt ∈ db .refreshTokensDevices, rt.deviceId ≠ deviceId := by
    intro db hdb
    refine ⟨h.later ⟨lowered_applyAll (by simp [DbWrite.KeepsCovered]) hdb, fun _ h => h,
      Int.le_refl _⟩, fun rt hrt hid => ?_⟩
    cases hdb
    rw [Function.update_self, List.mem_filter] at hrt
    simp [hid] at hrt
  refine outcomes_bind (outcomes_executeAll (fun e => h) fun r db hdb => ?_)
  obtain ⟨hok, hgone⟩ := hdelete db hdb
  rcases r with e | u
  · exact hok
  refine outcomes_executeAll (fun e => hok) fun r db' hdb' => ⟨?_, ?_⟩
  · intro rt hrt d hd hid
    cases hdb'
    have hrt : rt ∈ db .refreshTokensDevices := hrt
    have hd : d ∈ (db .devices).map fun d =>
        if d.id == deviceId then { d with refreshExp := none } else d := hd
    obtain ⟨d₀, hd₀, rfl⟩ := List.mem_map.mp hd
    split at hid
    · next heq => exact absurd (hid.symm.trans (eq_of_beq heq)) (hgone rt hrt)
    · next hne =>
        rw [if_neg hne]
        exact hok.covered rt hrt d₀ hd₀ hid
  · cases hdb'
    exact hok.issued

end Steps

/-! ### A poll -/

section Poll

variable {data : AppState} {w w' w₁ : World}
  {client : Client} {deviceId : String} {user : User}
  {cs : List (CacheName × Slot)}

/-- What `from_user` may add: a token of the device, with an `exp` from the clock at the end. -/
structure TokenAdded (data : AppState) (client : Client) (deviceId : String) (w w' : World) :
    Prop where
  devices : w'.db .devices = w.db .devices
  tokens : ∀ rt ∈ w'.db .refreshTokensDevices, rt ∈ w.db .refreshTokensDevices ∨
    rt.deviceId = deviceId ∧ client.refreshToken = true ∧
      rt.exp ≤ w'.clock / 1000 + (client.accessTokenLifetime.natAbs - 60) +
        data.deviceGrantRefreshTokenLifetime * 3600
  issued : ∀ s ∈ w.issued, s ∈ w'.issued
  clock : w.clock ≤ w'.clock

/-- Nothing about devices has changed. -/
structure SameDevices (w w' : World) : Prop where
  devices : w'.db .devices = w.db .devices
  tokens : w'.db .refreshTokensDevices = w.db .refreshTokensDevices
  issued : ∀ s ∈ w.issued, s ∈ w'.issued
  clock : w.clock ≤ w'.clock

theorem SameDevices.trans {w'' : World} (h₁ : SameDevices w w') (h₂ : SameDevices w' w'') :
    SameDevices w w'' :=
  ⟨h₂.devices.trans h₁.devices, h₂.tokens.trans h₁.tokens,
    fun s hs => h₂.issued s (h₁.issued s hs), h₁.clock.trans h₂.clock⟩

theorem sameDevices_of_touches {α : Type} {p : M ErrorResponse α} (hp : Touches [] cs p) :
    Outcomes sem p w fun _ w' => SameDevices w w' := fun _ _ hx =>
  have hf := hp.frame hx
  ⟨hf.db _ (by simp), hf.db _ (by simp), hf.issued, hf.clock⟩

theorem SameDevices.added (h : SameDevices w w') :
    TokenAdded data client deviceId w w' :=
  ⟨h.devices, fun _ hrt => .inl (h.tokens ▸ hrt), h.issued, h.clock⟩

theorem SameDevices.trans_added (h : SameDevices w w₁)
    (h₁ : TokenAdded data client deviceId w₁ w') : TokenAdded data client deviceId w w' :=
  ⟨h₁.devices.trans h.devices, h.tokens ▸ h₁.tokens, fun s hs => h₁.issued s (h.issued s hs),
    h.clock.trans h₁.clock⟩

theorem outcomes_lifetimeOf :
    Outcomes sem (TokenSet.lifetimeOf user client) w fun r w' => SameDevices w w' ∧
      ∀ lt, r = .ok lt → lt ≤ client.accessTokenLifetime.natAbs := by
  intro r w' hx
  refine ⟨sameDevices_of_touches (TokenSet.lifetimeOf_touches user client) r w' hx, ?_⟩
  rintro lt rfl
  unfold TokenSet.lifetimeOf at hx
  split at hx
  · rw [Except.ok.inj hx.1]
  · obtain ⟨now, w₁, -, hx⟩ := exec_bind_ok.mp hx
    obtain ⟨_, w₂, -, hret, -⟩ := exec_bind_ok.mp hx
    rw [Except.ok.inj hret]
    exact min_le_left _ _

theorem signRefreshToken_touches (data : AppState) (claims : JWTClaims JwtRefreshClaims) :
    Touches [] [(.c12hr, .jwkKeyPair)] (signRefreshToken data claims) :=
  touches_bind (JwkKeyPair.findLatest_touches _ _ _) fun _ =>
    touches_bind (touches_getRand _) fun _ => touches_answer _

theorem outcomes_deviceToken {fp scope : Option String} {lt : Int} {isMfa : Bool}
    (hlt : lt ≤ client.accessTokenLifetime.natAbs) (hclient : client.refreshToken = true) :
    Outcomes sem (buildRefreshToken data user fp client lt scope isMfa (.yes deviceId)) w
      fun _ w' => TokenAdded data client deviceId w w' := by
  refine outcomes_bind (outcomes_mono (sameDevices_of_touches (newClaims_touches _ _ _ _ _ _))
    fun r w₁ h₁ => ?_)
  rcases r with e | claims
  · exact h₁.added
  refine outcomes_bind (outcomes_mono (sameDevices_of_touches (signRefreshToken_touches _ _))
    fun r w₂ h₂ => ?_)
  have h₂ := h₁.trans h₂
  rcases r with e | token
  · exact h₂.added
  refine outcomes_bind (outcomes_unwrap (fun id _ => ?_) fun _ => h₂.added)
  refine outcomes_bind (outcomes_unixTimestamp fun ms hms => ?_)
  have h₃ : SameDevices w { w₂ with clock := ms } :=
    ⟨h₂.devices, h₂.tokens, h₂.issued, h₂.clock.trans hms⟩
  have hnew : ∀ db, applyAll [.upsert .refreshTokensDevices
      (⟨id, deviceId, user.id, ms / 1000 + (lt - 60), ms / 1000 + (lt - 60) +
        data.deviceGrantRefreshTokenLifetime * 3600, scope⟩ : RefreshTokenDevice)]
      w₂.db = some db → TokenAdded data client deviceId w { w₂ with clock := ms, db } := by
    intro db hdb
    cases hdb
    refine ⟨h₂.devices, fun rt hrt => ?_, h₃.issued, h₃.clock⟩
    have hrt : rt ∈ (w₂.db .refreshTokensDevices).filter _ ++ [_] := hrt
    rcases List.mem_append.mp hrt with hold | hnew
    · rw [← h₂.tokens]
      exact .inl (List.mem_filter.mp hold).1
    · rw [List.mem_singleton.mp hnew]
      refine .inr ⟨rfl, hclient, ?_⟩
      show ms / 1000 + (lt - 60) + _ ≤ ms / 1000 + _ + _
      omega
  refine outcomes_bind (outcomes_executeAll (fun e => h₃.added) fun r db hdb => ?_)
  rcases r with e | u
  · exact hnew db hdb
  · exact outcomes_ret (hnew db hdb)

theorem outcomes_deviceTokens {fp nonce scopes : Option String} {acf : AuthCodeFlow} :
    Outcomes sem (TokenSet.fromUser data user client fp nonce scopes acf (.yes deviceId)) w
      fun _ w' => TokenAdded data client deviceId w w' := by
  unfold TokenSet.fromUser
  refine outcomes_bind (outcomes_mono (sameDevices_of_touches (TokenSet.customsOf_touches _ _))
    fun r w₁ h₁ => ?_)
  rcases r with e | ⟨ca, ci⟩
  · exact h₁.added
  refine outcomes_bind (outcomes_mono outcomes_lifetimeOf fun r w₂ h₂ => ?_)
  obtain ⟨h₂, hlt⟩ := h₂
  have h₂ := h₁.trans h₂
  rcases r with e | lt
  · exact h₂.added
  refine outcomes_bind (outcomes_mono
    (sameDevices_of_touches (buildAccessToken_touches _ _ _ _ _ _ _ _))
    fun r w₃ h₃ => ?_)
  have h₃ := h₂.trans h₃
  rcases r with e | accessToken
  · exact h₃.added
  refine outcomes_bind (outcomes_answer (fun atHash _ => ?_) fun _ _ => h₃.added)
  refine outcomes_bind (outcomes_mono (sameDevices_of_touches
    (buildIdToken_touches _ _ _ _ _ _ _ _ _ _)) fun r w₄ h₄ => ?_)
  have h₄ := h₃.trans h₄
  rcases r with e | idToken
  · exact h₄.added
  have hrefresh : Outcomes sem (refreshTokenFor data user fp client lt scopes (.yes deviceId)) w₄
      fun _ w' => TokenAdded data client deviceId w w' := by
    unfold refreshTokenFor
    split
    · next hclient =>
        refine outcomes_bind (outcomes_mono (outcomes_deviceToken (hlt lt rfl) hclient)
          fun r w₅ h₅ => ?_)
        cases r with
        | ok _ => exact outcomes_ret (h₄.trans_added h₅)
        | error e => exact h₄.trans_added h₅
    · exact outcomes_ret h₄.added
  refine outcomes_bind (outcomes_mono hrefresh fun r w₅ h₅ => ?_)
  cases r with
  | ok _ => exact outcomes_ret h₅
  | error e => exact h₅

theorem DevicesOk.insert {d : DeviceEntity} {db : Db} (h : DevicesOk w)
    (hnone : ∀ rt ∈ w.db .refreshTokensDevices, rt.deviceId ≠ d.id)
    (hdb : applyAll [.insert .devices d] w.db = some db) :
    DevicesOk { w with db } ∧ db .devices = w.db .devices ++ [d] ∧
      ∀ d' ∈ w.db .devices, d'.id ≠ d.id := by
  rw [applyAll, DbWrite.apply] at hdb
  split at hdb
  · cases hdb
  next hfree =>
  cases hdb
  refine ⟨⟨fun rt hrt d' hd' hid => ?_, h.issued⟩, rfl, fun d' hd' he => hfree ?_⟩
  · have hd' : d' ∈ w.db .devices ++ [d] := hd'
    rcases List.mem_append.mp hd' with hd' | hd'
    · exact h.covered rt hrt d' hd' hid
    · rw [List.mem_singleton.mp hd'] at hid
      exact absurd hid.symm (hnone rt hrt)
  · exact List.any_eq_true.mpr ⟨d', hd', beq_of_eq he.symm⟩

/-- A device is issued: it covers its token if the two readings of the clock are close enough. -/
theorem outcomes_issuedDevice {ip : Option String} {code : DeviceAuthCode} {ms : Int}
    (h : DevicesOk w) (hlife : 0 ≤ client.accessTokenLifetime) :
    Outcomes sem (issueDevice data ip code user client ms) w fun _ w' =>
      w'.clock / 1000 - ms / 1000 + data.deviceGrantRefreshTokenLifetime * 3600 ≤ 48 * 3600 + 60 →
        DevicesOk w' := by
  refine outcomes_bind (outcomes_mono (later_of_touches (touches_ignoreErr
    (DeviceAuthCode.delete_touches data code)) (by simp) (by simp)) fun r w₁ h₁ => ?_)
  have h₁ := h.later h₁
  rcases r with e | u
  · exact fun _ => h₁
  refine outcomes_bind (outcomes_call fun id w₂ hrand => outcomes_ret ?_)
  obtain ⟨hfresh, -, -, rfl⟩ := sem_getRand.mp hrand
  have h₂ : DevicesOk { w₁ with issued := id :: w₁.issued } :=
    ⟨h₁.covered, fun rt hrt => List.mem_cons_of_mem _ (h₁.issued rt hrt)⟩
  have hnone : ∀ rt ∈ w₁.db .refreshTokensDevices, rt.deviceId ≠ id :=
    fun rt hrt he => hfresh (he ▸ h₁.issued rt hrt)
  refine outcomes_bind (outcomes_tried (outcomes_executeAll (fun e => outcomes_ret fun _ => h₂)
    fun r db hdb => ?_))
  obtain ⟨h₃, hdevices, hother⟩ := h₂.insert hnone hdb
  rcases r with (e | msg) | u
  · exact outcomes_ret fun _ => h₃
  · exact fun _ => h₃
  have hcovers : ∀ w', TokenAdded data client id { w₁ with issued := id :: w₁.issued, db } w' →
      w'.clock / 1000 - ms / 1000 + data.deviceGrantRefreshTokenLifetime * 3600 ≤ 48 * 3600 + 60 →
        DevicesOk w' := by
    intro w' hadd hquick
    refine ⟨fun rt hrt d hd hid => ?_, fun rt hrt => ?_⟩
    · rw [hadd.devices] at hd
      rcases hadd.tokens rt hrt with hold | ⟨hnew, hclient, hexp⟩
      · exact h₃.covered rt hold d hd hid
      · rcases List.mem_append.mp (hdevices ▸ (show d ∈ db .devices from hd)) with hd | hd
        · exact absurd (hid.trans hnew) (hother d hd)
        · refine ⟨ms / 1000 + client.accessTokenLifetime + 48 * 3600, ?_, ?_⟩
          · rw [List.mem_singleton.mp hd]
            exact if_pos hclient
          show rt.exp ≤ ms / 1000 + client.accessTokenLifetime + 48 * 3600
          omega
    · refine hadd.issued _ ?_
      rcases hadd.tokens rt hrt with hold | ⟨hnew, -, -⟩
      · exact h₃.issued rt hold
      · rw [hnew]
        exact List.mem_cons_self
  refine outcomes_bind (outcomes_tried (outcomes_mono outcomes_deviceTokens fun r w' hadd => ?_))
  rcases r with (e | msg) | ts
  · exact outcomes_ret (hcovers w' hadd)
  · exact hcovers w' hadd
  · exact outcomes_ret (hcovers w' hadd)

/-- The client that is found is one of the table or of the cache. -/
theorem LifetimesOk.find (h : LifetimesOk w) (id : String) :
    Outcomes sem (Client.find id) w fun r _ => ∀ c, r = .ok c → 0 ≤ c.accessTokenLifetime := by
  rintro r w' hx c rfl
  rcases Client.exec_find_known.mp ⟨w', hx⟩ with hcache | hrow
  · exact h c (.inr ⟨_, hcache⟩)
  · exact h c (.inl (List.mem_filter.mp (List.mem_of_head? hrow)).1)

theorem LifetimesOk.frame {ts : List Table} (h : LifetimesOk w) (hf : Frame ts cs w w')
    (ht : Table.clients ∉ ts) (hc : (CacheName.c12hr, Slot.client) ∉ cs) :
    LifetimesOk w' := by
  rintro c (hrow | ⟨k, hk⟩)
  · exact h c (.inl (hf.db .clients ht ▸ hrow))
  · rcases hf.cache _ _ _ hk with hk | hk
    · exact h c (.inr ⟨k, hk⟩)
    · exact absurd hk hc

/-- **A quick poll.** -/
theorem DevicesOk.poll (h : DevicesOk w) (hlife : LifetimesOk w) (ip : Option String)
    (payload : TokenRequest) :
    Outcomes sem (grantTypeDeviceCode data ip payload) w fun _ w' =>
      w'.clock / 1000 - w.clock / 1000 + data.deviceGrantRefreshTokenLifetime * 3600 ≤
        48 * 3600 + 60 → DevicesOk w' := by
  unfold grantTypeDeviceCode
  split
  · exact outcomes_ret fun _ => h
  refine outcomes_bind (outcomes_tried fun r w₁ hx => ?_)
  have hf₁ := (DeviceAuthCode.findByDeviceCode_touches data _).frame hx
  have h₁ : DevicesOk w₁ := h.later (later_of_touches
    (DeviceAuthCode.findByDeviceCode_touches data _)
    (by simp) (by simp) r w₁ hx)
  rcases r with (e | msg) | - | code
  · exact outcomes_ret fun _ => h₁
  · exact fun _ => h₁
  · exact outcomes_ret fun _ => h₁
  show Outcomes sem (if some code.clientId ≠ payload.clientId then _ else _) w₁ _
  split
  · exact outcomes_ret fun _ => h₁
  split
  · exact outcomes_ret fun _ => h₁
  split
  · exact outcomes_ret fun _ => h₁
  refine outcomes_bind (outcomes_call fun ms w₂ hnow => outcomes_ret ?_)
  obtain ⟨hms, rfl⟩ := sem_now.mp hnow
  have h₂ : DevicesOk { w₁ with clock := ms } := ⟨h₁.covered, h₁.issued⟩
  have hlife₁ : LifetimesOk w₁ := hlife.frame hf₁ (by simp) (by simp)
  have hlife₂ : LifetimesOk { w₁ with clock := ms } := hlife₁
  refine outcomes_bind fun r w₃ hx => ?_
  have hf₃ := (checkPoll_touches data code ms).frame hx
  have h₃ := h₂.later (later_of_touches (checkPoll_touches data code ms) (by simp) (by simp) r w₃
    hx)
  rcases r with e | ⟨code', error, description⟩
  · exact fun _ => h₃
  have hlife₃ := hlife₂.frame hf₃ (by simp) (by simp)
  dsimp only
  split
  · next verifiedBy _ =>
      refine outcomes_bind (outcomes_tried fun r w₄ hx => ?_)
      have hf₄ := (User.find_touches verifiedBy).frame hx
      have h₄ := h₃.later (later_of_touches (User.find_touches verifiedBy) (by simp) (by simp) r
        w₄ hx)
      rcases r with (e | msg) | user
      · exact outcomes_ret fun _ => h₄
      · exact fun _ => h₄
      have hlife₄ := hlife₃.frame hf₄ (by simp) (by simp)
      refine outcomes_bind (outcomes_tried fun r w₅ hx => ?_)
      have h₅ := h₄.later (later_of_touches (Client.find_touches _) (by simp) (by simp) r w₅ hx)
      rcases r with (e | msg) | client
      · exact outcomes_ret fun _ => h₅
      · exact fun _ => h₅
      -- the clock was read after the poll had begun
      have hstart : w.clock / 1000 ≤ ms / 1000 := by
        have hle : w.clock ≤ ms := hf₁.clock.trans hms
        omega
      have hclient : 0 ≤ client.accessTokenLifetime := hlife₄.find _ _ _ hx client rfl
      refine outcomes_mono (outcomes_issuedDevice h₅ hclient) fun r w' hw' hquick => hw' ?_
      omega
  · have hsave : Touches [] [(.deviceCodes, .deviceAuthCode)]
        (ignoreErr (DeviceAuthCode.save data { code' with lastPoll := ms })) :=
      touches_ignoreErr (DeviceAuthCode.save_touches data _)
    refine outcomes_bind (outcomes_mono (later_of_touches hsave (by simp) (by simp))
      fun r w₄ h₄ => ?_)
    have h₄ := h₃.later h₄
    cases r with
    | error e => exact fun _ => h₄
    | ok u => exact outcomes_ret fun _ => h₄

end Poll

/-! ### Runs -/

section Runs

variable {data : AppState} {w w' : World} {isHaLeader : Option Bool}

theorem devicesCleanup_keeps (isHaLeader : Option Bool) :
    (devicesCleanup isHaLeader).Within Op.KeepsCovered := by
  have hquiet : ∀ {ε α : Type} {p : M ε α}, Touches [] [] p → p.Within Op.KeepsCovered :=
    fun hp => keepsCovered_of_touches hp (by simp) (by simp)
  unfold devicesCleanup
  split
  · trivial
  refine within_bind (hquiet touches_unixTimestamp) fun now => within_ignoreErr ?_
  refine within_bind (hquiet (touches_select _ _)) fun devices => ⟨?_, fun x => within_answer x⟩
  simp [Op.KeepsCovered, DbWrite.KeepsCovered]

/-- The cleanup trusts `refresh_exp`: what it deletes has no good token. -/
theorem DevicesOk.spared (h : DevicesOk w) : DevicesSpared w := by
  intro isHaLeader r w' hx rt hrt hgood
  revert hgood
  refine (?_ : Outcomes sem (devicesCleanup isHaLeader) w fun _ w' => w'.clock / 1000 ≤ rt.exp →
    rt ∈ w'.db .refreshTokensDevices ∧ ∀ d ∈ w.db .devices, d.id = rt.deviceId →
      d ∈ w'.db .devices) r w' hx
  unfold devicesCleanup
  split
  · exact outcomes_ret fun _ => ⟨hrt, fun d hd _ => hd⟩
  refine outcomes_bind (outcomes_unixTimestamp fun ms hms => outcomes_bind (outcomes_tried ?_))
  have hold : ms / 1000 ≤ rt.exp → rt ∈ w.db .refreshTokensDevices ∧
      ∀ d ∈ w.db .devices, d.id = rt.deviceId → d ∈ w.db .devices :=
    fun _ => ⟨hrt, fun d hd _ => hd⟩
  refine outcomes_bind (outcomes_select ?_ fun e => outcomes_ret hold)
  refine outcomes_executeAll (fun e => outcomes_ret hold) fun r db hdb => ?_
  have hnew : ms / 1000 ≤ rt.exp → rt ∈ db .refreshTokensDevices ∧
      ∀ d ∈ w.db .devices, d.id = rt.deviceId → d ∈ db .devices := by
    intro hgood
    -- a device that is deleted would have a `refresh_exp` of more than a day ago
    have hkept : ∀ d ∈ w.db .devices, d.id = rt.deviceId →
        d.expiredBefore (ms / 1000 - 24 * 3600) = false := by
      intro d hd hid
      obtain ⟨e, he, hexp⟩ := h.covered rt hrt d hd hid
      have hlate : ¬ e < ms / 1000 - 24 * 3600 := by omega
      rw [DeviceEntity.expiredBefore, he, Option.all_some, decide_eq_false hlate, Bool.and_false]
    cases hdb
    refine ⟨List.mem_filter.mpr ⟨hrt, ?_⟩, fun d hd hid => List.mem_filter.mpr ⟨hd, ?_⟩⟩
    · rw [Bool.not_eq_true', List.any_eq_false]
      intro d hd hid
      obtain ⟨hd, hexpired⟩ := List.mem_filter.mp hd
      rw [hkept d hd (eq_of_beq hid)] at hexpired
      cases hexpired
    · show (!d.expiredBefore (ms / 1000 - 24 * 3600)) = true
      rw [hkept d hd hid]
      rfl
  rcases r with (e | msg) | u
  · exact outcomes_ret hnew
  · exact hnew
  · exact outcomes_ret hnew

theorem DeviceEntity.updateName_keeps (deviceId userId name : String) :
    (DeviceEntity.updateName deviceId userId name).Within Op.KeepsCovered := by
  refine ⟨?_, fun x => within_answer x⟩
  simp [Op.KeepsCovered, DbWrite.KeepsCovered]

theorem DevicesOk.step {c : DeviceCall} {r : Except (Fault ErrorResponse) Unit} (h : DevicesOk w)
    (hc : QuickPoll data w w' c) (hx : Exec sem (c.prog data) w r w') : DevicesOk w' := by
  cases c with
  | poll ip payload =>
      obtain ⟨hlife, hquick⟩ := hc
      have hpoll : Outcomes sem ((DeviceCall.poll ip payload).prog data) w fun _ w' =>
          w'.clock / 1000 - w.clock / 1000 + data.deviceGrantRefreshTokenLifetime * 3600 ≤
            48 * 3600 + 60 → DevicesOk w' := by
        refine outcomes_bind (outcomes_mono (h.poll hlife ip payload) fun r w₁ h₁ => ?_)
        cases r with
        | error e => exact h₁
        | ok answer => exact outcomes_ret h₁
      exact hpoll r w' hx hquick
  | revoke userId deviceId =>
      have hrevoke : Outcomes sem (deleteUserDevice userId deviceId) w fun _ w' =>
          DevicesOk w' := by
        have hfind : Touches [] [] (DeviceEntity.find deviceId) := touches_fetchOne _ _
        refine outcomes_bind (outcomes_mono (later_of_touches hfind (by simp) (by simp))
          fun r w₁ h₁ => ?_)
        have h₁ := h.later h₁
        cases r with
        | error e => exact h₁
        | ok device =>
            exact outcomes_bind (outcomes_throwIf (fun _ => h₁.revoke deviceId) fun _ => h₁)
      exact hrevoke r w' hx
  | rename deviceId userId name =>
      exact h.later (later_of_within (DeviceEntity.updateName_keeps deviceId userId name) r w' hx)
  | cleanup isHaLeader => exact h.later (later_of_within (devicesCleanup_keeps isHaLeader) r w' hx)
  | other p hp => exact h.later (later_of_within hp r w' hx)

theorem DeviceHistory.ok (h : DeviceHistory data (QuickPoll data) w) : DevicesOk w := by
  induction h with
  | start hempty =>
      refine ⟨fun rt hrt => ?_, fun rt hrt => ?_⟩
      · rw [hempty] at hrt
        cases hrt
      · rw [hempty] at hrt
        cases hrt
  | step h hC hx ih => exact ih.step hC hx

end Runs

/-- **Devices outlive their tokens** after every history in which the polls are quick enough, and
the cleanup spares the good ones. -/
theorem devices_outlive_tokens {data : AppState} {w : World}
    (h : DeviceHistory data (QuickPoll data) w) : DevicesCovered w.db ∧ DevicesSpared w :=
  ⟨h.ok.covered, h.ok.spared⟩

/-! ### Alice's television -/

/-- A server with this DEVICE_GRANT_REFRESH_TOKEN_LIFETIME -/
def lifetimeState (hours : Int) : AppState := { sampleState with
  deviceGrantRefreshTokenLifetime := hours
  signJwt := fun _ _ => .ok (String.ofList (List.replicate 60 't')) }

def refreshingDevice : Client := { sampleClient with refreshToken := true }

def approvedCode : DeviceAuthCode where
  clientId := "app"
  deviceCode := "aaaaaaaa"
  verifiedBy := some "alice"
  exp := 1000000
  lastPoll := 0
  scopes := none
  clientSecret := none
  warnings := 0

/-- The code is verified, and everything that a poll takes is cached. -/
def approvedWorld : World where
  clock := 100000
  issued := []
  db _ := []
  cache
    | .deviceCodes, "aaaaaaaa" => some (.deviceAuthCode approvedCode)
    | .c12hr, "client_app" => some (.client refreshingDevice)
    | .c12hr, "jwk_latest_EdDSA" => some (.jwkKeyPair ⟨"kid", .edDSA, []⟩)
    | .users, "users__alice" => some (.user sampleUser)
    | _, _ => none

theorem lifetimesOk_approvedWorld : LifetimesOk approvedWorld := by
  rintro c (hrow | ⟨k, hk⟩)
  · cases hrow
  · simp only [approvedWorld] at hk
    split at hk <;> cases hk
    decide

def approvedPoll : TokenRequest :=
  { (default : TokenRequest) with clientId := some "app", deviceCode := some "aaaaaaaa" }

def approvedChoices : List Choice :=
  [.ok, .time 100000, .time 100000, .ok, .ok, .ok, .rand "abcdefghijklmnopqrstuvwx", .ok,
    .time 100000, .ok, .time 100000, .time 100000, .ok, .time 100000, .ok,
    .rand "noisenoisenoise1", .time 100000, .ok]

/-- With a lifetime of 48 hours the poll is quick enough. -/
theorem devices_outlive_tokens_quick : ∃ w, w.db .refreshTokensDevices ≠ [] ∧
    DevicesCovered w.db ∧ DevicesSpared w := by
  obtain ⟨r, w, hx, hr⟩ := Pool.exists_exec_of_choices Op.run
    ((DeviceCall.poll none approvedPoll).prog (lifetimeState 48)) approvedChoices approvedWorld
    (fun _ w => decide (w.clock = 100000) && !(w.db .refreshTokensDevices).isEmpty)
    (by decide +kernel)
  rw [Bool.and_eq_true, decide_eq_true_eq, Bool.not_eq_true', List.isEmpty_eq_false_iff] at hr
  have hquick : QuickPoll (lifetimeState 48) approvedWorld w (.poll none approvedPoll) := by
    refine ⟨lifetimesOk_approvedWorld, ?_⟩
    rw [hr.1]
    decide
  exact ⟨w, hr.2, devices_outlive_tokens (.step (.start rfl) hquick hx)⟩

/-- The device ends before one of its tokens. -/
def endsBefore (db : Db) : Bool :=
  (db .refreshTokensDevices).any fun rt => (db .devices).any fun d =>
    d.id == rt.deviceId && d.refreshExp.all fun e => decide (e < rt.exp)

theorem not_covered_of_endsBefore {db : Db} (h : endsBefore db = true) : ¬ DevicesCovered db := by
  intro hcovered
  obtain ⟨rt, hrt, hdevice⟩ := List.any_eq_true.mp h
  obtain ⟨d, hd, hends⟩ := List.any_eq_true.mp hdevice
  rw [Bool.and_eq_true] at hends
  obtain ⟨e, he, hexp⟩ := hcovered rt hrt d hd (eq_of_beq hends.1)
  have hlate := hends.2
  rw [he, Option.all_some, decide_eq_true_eq] at hlate
  omega

/-- With the default of 72 hours, the first poll issues a device that ends before its token does;
with 96 hours, the cleanup deletes a device and its token while the token is good. -/
theorem device_before_token :
    (¬ ∀ data w, DeviceHistory data (fun w _ _ => LifetimesOk w) w → DevicesCovered w.db) ∧
      ¬ ∀ data w, DeviceHistory data (fun w _ _ => LifetimesOk w) w → DevicesSpared w := by
  constructor
  · intro hall
    obtain ⟨r, w, hx, hr⟩ := Pool.exists_exec_of_choices Op.run
      ((DeviceCall.poll none approvedPoll).prog (lifetimeState 72)) approvedChoices approvedWorld
      (fun _ w => endsBefore w.db) (by decide +kernel)
    exact not_covered_of_endsBefore hr (hall _ w (.step (.start rfl) lifetimesOk_approvedWorld hx))
  · intro hall
    obtain ⟨r, w, hx, hr⟩ := Pool.exists_exec_of_choices Op.run
      ((DeviceCall.poll none approvedPoll).prog (lifetimeState 96)) approvedChoices approvedWorld
      (fun _ w => (Pool.runWith Op.run (devicesCleanup none) [.time 261101000, .ok, .ok] w).any
        fun x => (w.db .refreshTokensDevices).any (fun rt => decide (x.2.clock / 1000 ≤ rt.exp)) &&
          (x.2.db .refreshTokensDevices).isEmpty) (by decide +kernel)
    have hspared := hall _ w (.step (.start rfl) lifetimesOk_approvedWorld hx)
    obtain ⟨r', w', hx', hr'⟩ := Pool.exists_exec_of_choices Op.run (devicesCleanup none)
      [.time 261101000, .ok, .ok] w
      (fun _ w' => (w.db .refreshTokensDevices).any (fun rt => decide (w'.clock / 1000 ≤ rt.exp)) &&
        (w'.db .refreshTokensDevices).isEmpty) hr
    rw [Bool.and_eq_true, List.any_eq_true, List.isEmpty_iff] at hr'
    obtain ⟨⟨rt, hrt, hgood⟩, hempty⟩ := hr'
    have hstays := (hspared none r' w' hx' rt hrt (of_decide_eq_true hgood)).1
    rw [hempty] at hstays
    cases hstays

end Rauthy
