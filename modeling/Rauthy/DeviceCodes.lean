/-
Rauthy/DeviceCodes.lean

The user codes of device codes.  A device code is cached under its first bytes, and whatever a
device sends is cut in the same place, on which the program panics where the text is shorter or the
place is inside a character.

Main results:
  * `ownKeys_of_run`, every cached device code stands under its own user code;
  * `device_codes_cut_iff`, when neither polls nor new codes fail at the cut;
  * `device_code_short`: a device that sends no text at all.
-/
import Rauthy.CustomClaims
import Rauthy.DeviceFlow

namespace Rauthy

open Prog Pool

/-! ### What has to hold -/

/-- The panic of a slice. -/
def noSlice : Fault ErrorResponse := .panic "byte index out of bounds or not a char boundary"

/-- Every device code is cached under its own user code. -/
def OwnKeys (data : AppState) (w : World) : Prop :=
  ∀ k c, w.cache .deviceCodes k = some (.deviceAuthCode c) →
    Text.sliceTo c.deviceCode data.deviceGrantUserCodeLength = some k

/-- No poll with this request panics at a slice, whatever the other requests do meanwhile. -/
def PollsEnd (data : AppState) (payload : TokenRequest) : Prop :=
  ∀ ip w r w', Exec (amid (OwnKeys data) sem) (grantTypeDeviceCode data ip payload) w r w' →
    r ≠ .error noSlice

/-- A new device code has a user code, and is looked up, saved and deleted under the key that it is
cached under. -/
structure CodesFound (data : AppState) : Prop where
  total : ∀ scopes clientId clientSecret w r w',
    Exec sem (DeviceAuthCode.new data scopes clientId clientSecret) w r w' → r ≠ .error noSlice
  found : ∀ scopes clientId clientSecret w c w',
    Exec sem (DeviceAuthCode.new data scopes clientId clientSecret) w (.ok c) w' →
    ∃ k, w'.cache .deviceCodes k = some (.deviceAuthCode c) ∧ c.userCode data = ret k ∧
      DeviceAuthCode.findByDeviceCode data c.deviceCode = DeviceAuthCode.find data k ∧
      ∀ c', c'.deviceCode = c.deviceCode →
        c'.save data = cachePut .deviceCodes k (.deviceAuthCode c') ∧
        c'.delete data = cacheDel .deviceCodes k

theorem not_tokenFault_noSlice : ¬ TokenFault noSlice := by
  have hmsg : "byte index out of bounds or not a char boundary" ∉ tokenPanics := by decide
  exact hmsg

/-! ### Device codes under their user codes -/

section Keys

variable {data : AppState} {s k : String} {c : DeviceAuthCode}

/-- **Every cached device code stands under its own user code**, in every interleaving of the
device flow. -/
theorem ownKeys_of_run {w₀ : World} (hw : Keyed w₀) {P : DevicePool}
    {C : World → DeviceLog → DeviceEvent → Prop}
    (h : Run (DeviceReq.prog data) sem C (init w₀) P) : OwnKeys data P.world := by
  intro k c hc
  obtain ⟨⟨payload, ms, hstarted⟩, -⟩ := (deviceInv_of_run hw h).codes k c hc
  exact hstarted.key

theorem DeviceAuthCode.userCode_eq
    (h : Text.sliceTo c.deviceCode data.deviceGrantUserCodeLength = some k) :
    c.userCode data = ret k := by
  rw [userCode, Rauthy.sliceTo, h]
  rfl

theorem DeviceAuthCode.save_eq
    (h : Text.sliceTo c.deviceCode data.deviceGrantUserCodeLength = some k) :
    c.save data = cachePut .deviceCodes k (.deviceAuthCode c) := by
  rw [save, userCode_eq h]
  rfl

theorem DeviceAuthCode.delete_eq
    (h : Text.sliceTo c.deviceCode data.deviceGrantUserCodeLength = some k) :
    c.delete data = cacheDel .deviceCodes k := by
  rw [delete, userCode_eq h]
  rfl

theorem DeviceAuthCode.findByDeviceCode_eq
    (h : Text.sliceTo s data.deviceGrantUserCodeLength = some k) :
    findByDeviceCode data s = find data k := by
  rw [findByDeviceCode, Rauthy.sliceTo, h]
  rfl

end Keys

/-! ### New codes -/

section New

variable {data : AppState} {scopes clientSecret : Option String} {clientId : String} {w w' : World}

theorem sliceTo_rand {s : String} {n : ℕ} (hlen : s.toList.length = n)
    (halnum : s.toList.all isAlnum = true) {m : ℕ} (hm : m ≤ n) :
    ∃ k, Text.sliceTo s m = some k := by
  refine Option.isSome_iff_exists.mp (Text.sliceTo_isSome.mpr ?_)
  refine Text.isCharBoundary_of_ascii (fun c hc => ?_) (hlen ▸ hm)
  exact utf8Size_of_isAlnum (List.all_eq_true.mp halnum c hc)

theorem exec_new {r : Except (Fault ErrorResponse) DeviceAuthCode}
    (h : Exec sem (DeviceAuthCode.new data scopes clientId clientSecret) w r w') :
    ∃ c : DeviceAuthCode, c.deviceCode.toList.length = 64 ∧
      c.deviceCode.toList.all isAlnum = true ∧ ∃ w₁, Exec sem (do
        let key ← c.userCode data
        cachePut .deviceCodes key (.deviceAuthCode c)
        return c) w₁ r w' := by
  obtain ⟨ms, w₁, -, s, w₂, hrand, hrest⟩ := h
  obtain ⟨-, hlen, halnum, -⟩ := sem_getRand.mp hrand
  exact ⟨_, hlen, halnum, w₂, hrest⟩

theorem codesFound (h : data.deviceGrantUserCodeLength ≤ 64) : CodesFound data where
  total scopes clientId clientSecret w r w' hx := by
    obtain ⟨c, hlen, halnum, w₁, hx⟩ := exec_new hx
    obtain ⟨k, hk⟩ := sliceTo_rand hlen halnum h
    rw [DeviceAuthCode.userCode_eq hk, ret_bind] at hx
    have hends : Unwraps (do
        cachePut .deviceCodes k (.deviceAuthCode c)
        return c) fun _ => True :=
      ends_bind (unwraps_cachePut _ _ _) fun _ _ => trivial
    rintro rfl
    exact not_tokenFault_noSlice ((hends.exec hx).1 _ rfl)
  found scopes clientId clientSecret w c w' hx := by
    obtain ⟨c', -, -, w₁, hx⟩ := exec_new hx
    obtain ⟨key, w₂, hkey, hrest⟩ := exec_bind_ok.mp hx
    obtain ⟨hslice, rfl⟩ := exec_unwrap.mp hkey
    obtain ⟨_, w₃, hput, hret⟩ := exec_bind_ok.mp hrest
    obtain ⟨hc, rfl⟩ := exec_ret.mp hret
    cases hc
    refine ⟨key, ?_, DeviceAuthCode.userCode_eq hslice, DeviceAuthCode.findByDeviceCode_eq hslice,
      fun c' hc' => ?_⟩
    · rw [exec_cachePut.mp hput, World.put_cache, if_pos ⟨rfl, rfl⟩]
    · rw [← hc'] at hslice
      exact ⟨DeviceAuthCode.save_eq hslice, DeviceAuthCode.delete_eq hslice⟩

theorem exists_noSlice (h : 64 < data.deviceGrantUserCodeLength) :
    ∃ w w', Exec sem (DeviceAuthCode.new data none "app" none) w (.error noSlice) w' := by
  let s := String.ofList (List.replicate 64 'a')
  have hs : s.toList = List.replicate 64 'a' := String.toList_ofList
  have hslice : Text.sliceTo s data.deviceGrantUserCodeLength = none := by
    rw [← Option.not_isSome_iff_eq_none, Text.sliceTo_isSome]
    intro hcut
    have hle := hcut.le_len
    rw [Text.len_of_ascii fun c hc => ?_, hs, List.length_replicate] at hle
    · omega
    · rw [hs] at hc
      rw [List.eq_of_mem_replicate hc]
      rfl
  let w : World := { clock := 0, issued := [], db := fun _ => [], cache := fun _ _ => none }
  refine ⟨w, { w with issued := [s] }, ?_⟩
  refine ⟨0, w, sem_now.mpr ⟨le_rfl, rfl⟩, s, _, sem_getRand.mpr ⟨?_, ?_, ?_, rfl⟩, ?_⟩
  · exact List.not_mem_nil
  · rw [hs, List.length_replicate]
  · rw [hs]
    decide
  · show Exec sem (Rauthy.sliceTo s _ >>= _) _ _ _
    rw [Rauthy.sliceTo, hslice]
    exact ⟨rfl, rfl⟩

end New

/-! ### Polls -/

section Polls

variable {data : AppState} {payload : TokenRequest} {d key : String} {c : DeviceAuthCode}

theorem unwraps_now : Unwraps now fun _ => True := fun _ => trivial

theorem unwraps_cacheDel (n : CacheName) (k : String) : Unwraps (cacheDel n k) fun _ => True :=
  fun x => unwraps_answer x

theorem unwraps_tried {α : Type} {F : α → Prop} {p : M ErrorResponse α} (hp : Unwraps p F) :
    Unwraps (attempt p : M ErrorResponse (Except ErrorResponse α)) fun _ => True := by
  refine ends_bind (ends_attempt hp) fun r hr => ?_
  rcases r with (e | msg) | a
  · trivial
  · exact hr _ rfl
  · trivial

theorem unwraps_ignoreErr {α : Type} {F : α → Prop} {p : M ErrorResponse α} (hp : Unwraps p F) :
    Unwraps (ignoreErr p) fun _ => True :=
  ends_bind (unwraps_tried hp) fun _ _ => trivial

theorem unwraps_fetchOne (t : Table) (p : Row t → Bool) : Unwraps (fetchOne t p) fun _ => True := by
  refine ends_bind (unwraps_select t p) fun rows _ => ?_
  cases rows <;> trivial

theorem unwraps_findUser (id : String) : Unwraps (User.find id) fun _ => True :=
  unwraps_cached (unwraps_fetchOne _ _)

theorem unwraps_findClient (id : String) : Unwraps (Client.find id) fun _ => True := by
  refine ends_bind (unwraps_cacheGet _ _ _) fun x _ => ?_
  rcases x with - | client
  · refine ends_bind (unwraps_fetchOne _ _) fun client _ => ?_
    exact ends_bind (unwraps_cachePut _ _ _) fun _ _ => trivial
  · trivial

theorem unwraps_delete (h : Text.sliceTo c.deviceCode data.deviceGrantUserCodeLength = some key) :
    Unwraps (c.delete data) fun _ => True := by
  rw [DeviceAuthCode.delete_eq h]
  exact unwraps_cacheDel _ _

theorem unwraps_checkPoll (h : Text.sliceTo c.deviceCode data.deviceGrantUserCodeLength = some key)
    (ms : Int) :
    Unwraps (checkPoll data c ms) fun r => r.1.deviceCode = c.deviceCode := by
  unfold checkPoll
  split
  · dsimp only
    split
    · exact ends_bind (unwraps_ignoreErr (@unwraps_delete data key _ h)) fun _ _ => rfl
    · rfl
  · rfl

theorem unwraps_issueDevice
    (h : Text.sliceTo c.deviceCode data.deviceGrantUserCodeLength = some key) {ip : Option String}
    {user : User} {client : Client} {ms : Int} :
    Unwraps (issueDevice data ip c user client ms) fun _ => True := by
  refine ends_bind (unwraps_ignoreErr (unwraps_delete h)) fun _ _ => ?_
  refine ends_bind (F := fun _ => True) (fun _ => trivial) fun id _ => ?_
  refine ends_bind (unwraps_tried (unwraps_execute _)) fun r _ => ?_
  rcases r with e | _
  · trivial
  · refine ends_bind (unwraps_tried unwraps_fromUser) fun r _ => ?_
    rcases r with e | ts <;> trivial

theorem unwraps_found (h : Text.sliceTo c.deviceCode data.deviceGrantUserCodeLength = some key)
    (ip : Option String) : Unwraps (do
      let ms ← now
      let (code, error, description) ← checkPoll data c ms
      match code.verifiedBy with
      | some verifiedBy =>
          match ← attempt (User.find verifiedBy) with
          | .error e => return DeviceAnswer.internal e
          | .ok user =>
              match ← attempt (Client.find code.clientId) with
              | .error e => return .internal e
              | .ok client => issueDevice data ip code user client ms
      | none =>
          ignoreErr (DeviceAuthCode.save data { code with lastPoll := ms })
          return .error 400 error description) fun _ => True := by
  refine ends_bind unwraps_now fun ms _ => ?_
  refine ends_bind (unwraps_checkPoll h ms) fun ⟨code, error, description⟩ hcode => ?_
  have hkey : Text.sliceTo code.deviceCode data.deviceGrantUserCodeLength = some key := by
    rw [show code.deviceCode = c.deviceCode from hcode, h]
  dsimp only
  split
  · refine ends_bind (unwraps_tried (unwraps_findUser _)) fun r _ => ?_
    rcases r with e | user
    · trivial
    · refine ends_bind (unwraps_tried (unwraps_findClient _)) fun r _ => ?_
      rcases r with e | client
      · trivial
      · exact unwraps_issueDevice hkey
  · refine ends_bind (unwraps_ignoreErr (F := fun _ => True) ?_) fun _ _ => trivial
    have hsave := DeviceAuthCode.save_eq (c := { code with lastPoll := ms }) hkey
    rw [hsave]
    exact unwraps_cachePut _ _ _

theorem exec_findOk {w w' : World} {x : Option DeviceAuthCode}
    (hx : Exec (amid (OwnKeys data) sem) (cacheGet .deviceCodes key CacheVal.deviceAuthCode?) w
      (.ok x) w') :
    ∀ c, x = some c → Text.sliceTo c.deviceCode data.deviceGrantUserCodeLength = some key := by
  rintro c rfl
  obtain ⟨v, w₁, ⟨y, w₂, ⟨w₃, hkeys, hget⟩, hanswer⟩, hrest⟩ := exec_bind_ok.mp hx
  obtain ⟨rfl, -⟩ := exec_answer.mp hanswer
  rcases v with - | v
  · cases (exec_ret.mp hrest).1
  · obtain ⟨c', _, hc', hret⟩ := exec_bind_ok.mp hrest
    obtain ⟨hval, -⟩ := exec_okOr.mp hc'
    cases (exec_ret.mp hret).1
    rw [CacheVal.deviceAuthCode?_eq_some.mp hval] at hget
    rcases sem_cacheGet.mp hget with ⟨hv, -⟩ | ⟨hv, -⟩ | ⟨e, he, -⟩
    · exact hkeys key c (Except.ok.inj hv).symm
    · cases hv
    · cases he

/-- A lookup does not panic: the code that it finds stands under its own user code. -/
theorem find_noSlice {w w' : World} {r : Except (Fault ErrorResponse) (Option DeviceAuthCode)}
    (hx : Exec (amid (OwnKeys data) sem) (DeviceAuthCode.find data key) w r w') :
    r ≠ .error noSlice := by
  rintro rfl
  rcases exec_bind.mp hx with ⟨e, he, hget⟩ | ⟨x, w₁, hget, hrest⟩
  · cases he
    exact not_tokenFault_noSlice ((Ends.exec (unwraps_cacheGet _ _ _) hget).1 _ rfl)
  · rcases x with - | c
    · cases (exec_ret.mp hrest).1
    · have hkey := exec_findOk hget c rfl
      have hends : Unwraps (do
          let ms ← now
          if c.exp < ms then
            c.delete data
            return none
          else return some c) fun _ => True := by
        refine ends_bind unwraps_now fun ms _ => ?_
        split
        · exact ends_bind (unwraps_delete hkey) fun _ _ => trivial
        · trivial
      exact not_tokenFault_noSlice ((Ends.exec hends hrest).1 _ rfl)

theorem pollsEnd (hd : payload.deviceCode = some d)
    (h : Text.IsCharBoundary d data.deviceGrantUserCodeLength) : PollsEnd data payload := by
  intro ip w r w' hx
  obtain ⟨key, hkey⟩ := Option.isSome_iff_exists.mp (Text.sliceTo_isSome.mpr h)
  unfold grantTypeDeviceCode at hx
  rw [hd] at hx
  dsimp only at hx
  rw [DeviceAuthCode.findByDeviceCode_eq hkey] at hx
  rintro rfl
  rcases exec_bind.mp hx with ⟨e, he, hfind⟩ | ⟨x, w₁, -, hrest⟩
  · cases he
    obtain ⟨msg, he, hfind⟩ := exec_tried_panic hfind
    cases he
    exact find_noSlice hfind rfl
  · rcases x with e | - | c
    · cases (exec_ret.mp hrest).1
    · cases (exec_ret.mp hrest).1
    · dsimp only at hrest
      split at hrest
      · cases (exec_ret.mp hrest).1
      split at hrest
      · cases (exec_ret.mp hrest).1
      next hcode =>
      split at hrest
      · cases (exec_ret.mp hrest).1
      · rw [← not_ne_iff.mp hcode] at hkey
        exact not_tokenFault_noSlice ((Ends.exec (unwraps_found hkey ip) hrest).1 _ rfl)

end Polls

/-- **Device codes at the cut**: polls and new codes do not fail there if the text that a device
sends has a boundary there, and new codes are long enough. -/
theorem device_codes_cut_iff (data : AppState) (payload : TokenRequest) (d : String)
    (hd : payload.deviceCode = some d) :
    PollsEnd data payload ∧ CodesFound data ↔
      Text.IsCharBoundary d data.deviceGrantUserCodeLength ∧
        data.deviceGrantUserCodeLength ≤ 64 := by
  constructor
  · rintro ⟨hpolls, hcodes⟩
    refine ⟨?_, ?_⟩
    · by_contra hcut
      rw [← Text.sliceTo_isSome, Option.not_isSome_iff_eq_none] at hcut
      let w : World := { clock := 0, issued := [], db := fun _ => [], cache := fun _ _ => none }
      refine hpolls none w (.error noSlice) w ?_ rfl
      unfold grantTypeDeviceCode DeviceAuthCode.findByDeviceCode Rauthy.sliceTo
      rw [hd]
      dsimp only
      rw [hcut]
      exact ⟨rfl, rfl⟩
    · by_contra hlong
      obtain ⟨w, w', hx⟩ := exists_noSlice (not_le.mp hlong)
      exact hcodes.total _ _ _ _ _ _ hx rfl
  · rintro ⟨hcut, hle⟩
    exact ⟨pollsEnd hd hcut, codesFound hle⟩

def deviceRequest (d : String) : TokenRequest := { pollRequest with deviceCode := some d }

theorem device_codes_cut_iff_ascii : PollsEnd sampleState (deviceRequest "abcdefgh") ∧
    CodesFound sampleState := by
  have halnum : "abcdefgh".toList.all isAlnum = true := by decide
  have hascii : ∀ c ∈ "abcdefgh".toList, c.utf8Size = 1 := fun c hc =>
    utf8Size_of_isAlnum (List.all_eq_true.mp halnum c hc)
  exact (device_codes_cut_iff sampleState (deviceRequest "abcdefgh") "abcdefgh" rfl).mpr
    ⟨Text.isCharBoundary_of_ascii hascii (by decide), by decide⟩

/-- A text of less than eight bytes, which the validation admits. -/
theorem device_code_short :
    ¬ ∀ (data : AppState) (payload : TokenRequest) (d : String), payload.deviceCode = some d →
      d.toList.length ≤ 256 → data.deviceGrantUserCodeLength < 2 ^ 8 →
      PollsEnd data payload ∧ CodesFound data := by
  intro hall
  obtain ⟨hpolls, -⟩ := hall sampleState (deviceRequest "short") "short" rfl (by decide) (by decide)
  let w : World := { clock := 0, issued := [], db := fun _ => [], cache := fun _ _ => none }
  exact hpolls none w (.error noSlice) w ⟨rfl, rfl⟩ rfl

end Rauthy
