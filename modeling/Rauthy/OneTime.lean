/-
Rauthy/OneTime.lean

What may be used once: the challenge of a proof of work, the code of a Webauthn service
request presented as an MFA code, and the code of a Webauthn ceremony.  All three are
entries of a cache under a random name.  The first two are looked up and then deleted, with
nothing in between that would notice another request that has found them too; the third
one is never deleted.

Main results: `used_once`, if such a value is presented by one request at a time, and
`ceremony_released_twice` without.
-/
import Rauthy.Devices
import Rauthy.UpstreamCallbacks

namespace Rauthy

open Prog Pool Bincode

/-! ### What the handlers write -/

section Touches

variable {data : AppState}

theorem mfaCookieOf_touches {ε : Type} (req : HttpRequest) (user : User) :
    Touches [] [] (mfaCookieOf data req user : M ε (Option WebauthnCookie)) := by
  refine touches_bind (touches_attempt (WebauthnCookie.parseValidate_touches data _)) fun r => ?_
  cases r with
  | ok c => exact touches_ret _
  | error e => exact touches_ret _

theorem authorizeUser_touches (req : HttpRequest) (reqData : LoginRequest) :
    Touches [] [(.users, .user)] (authorizeUser data req reqData) := by
  refine touches_bind (touches_mapErr (User.findByEmail_touches data _)) fun user => ?_
  refine touches_bind ((mfaCookieOf_touches req user).mono (by simp) (by simp)) fun cookie => ?_
  refine touches_bind (touches_throwIf _ _) fun _ => touches_bind (touches_throwIf _ _) fun _ => ?_
  refine touches_bind (touches_mapErr (user.checkEnabled_touches.mono (by simp) (by simp)))
    fun _ => ?_
  refine touches_bind (touches_mapErr (user.checkExpired_touches.mono (by simp) (by simp)))
    fun _ => ?_
  exact touches_ret _

theorem checkLoginPassword_touches (user : User) (password : Option String) :
    Touches updateTables updateSlots (checkLoginPassword data user password) := by
  cases password with
  | none => exact touches_ret _
  | some pwd =>
      refine touches_bind ((user.validatePassword_touches data pwd).mono (by simp [updateTables])
        (by simp)) fun _ => touches_bind touches_unixTimestamp fun now => ?_
      refine touches_bind ((User.save_touches data _ none).mono (by simp [updateTables])
        (by simp [updateSlots])) fun _ => touches_ret _

theorem authorizeClient_touches (req : HttpRequest) (reqData : LoginRequest) (user : User)
    (hashed : Bool) : Touches [] [(.c12hr, .client), (.ephemeralClients, .client)]
      (authorizeClient data req reqData user hashed) := by
  refine touches_bind (touches_mapErr (Client.findMaybeEphemeral_touches data _)) fun client => ?_
  refine touches_bind (touches_mapErr (touches_answer _)) fun _ => ?_
  refine touches_bind (touches_mapErr (touches_answer _)) fun _ => ?_
  refine touches_bind (touches_mapErr (touches_answer _)) fun _ => ?_
  exact touches_bind (touches_mapErr (touches_answer _)) fun _ => touches_ret _

theorem issueCode_touches (user : User) (client : Client) (session : Session)
    (challenge method nonce : Option String) (scopes : List String) :
    Touches [] [(.authCodes, .authCode)]
      (issueCode data user client session challenge method nonce scopes) := by
  refine touches_bind ((AuthCode.new_touches ..).mono (by simp) (by simp)) fun code => ?_
  exact touches_bind (touches_cachePut (by simp [CacheVal.slot]) _) fun _ => touches_ret _

theorem PasskeyEntity.findForUser_touches (id : String) :
    Touches [] [(.webauthn, .passkeys)] (PasskeyEntity.findForUser id) :=
  touches_cached (touches_select _ _) (by simp [CacheVal.slot])

theorem PasskeyEntity.findForUserWithUv_touches (id : String) :
    Touches [] [(.webauthn, .passkeys)] (PasskeyEntity.findForUserWithUv id) :=
  touches_cached (touches_select _ _) (by simp [CacheVal.slot])

theorem passkeysFor_touches (uv : Bool) (id : String) :
    Touches [] [(.webauthn, .passkeys)] (passkeysFor uv id) := by
  cases uv with
  | true => exact PasskeyEntity.findForUserWithUv_touches id
  | false => exact PasskeyEntity.findForUser_touches id

end Touches

/-- `PowEntity::create`: the library draws the challenge. -/
def PowEntity.create : M ErrorResponse String := do
  let challenge ← op Op.newUuid
  cachePut .pow challenge (.pow challenge)
  return challenge

/-! ### The requests -/

/-- The two caches. -/
def oneTimeCaches : List CacheName := [.pow, .webauthnData]

/-- The requests that use these caches, and any others that store nothing there. -/
inductive OneTimeReq where
  | powCreate
  | powCheck (challenge : String)
  | login (req : HttpRequest) (reqData : LoginRequest) (session : Session)
  | refresh (session : Session) (client : Client) (headerOrigin : Option String)
      (reqData : LoginRefreshRequest)
  | upstream (req : HttpRequest) (payload : ProviderCallbackRequest) (session : Session)
  | authStart (userId : String) (purpose : MfaPurpose)
  | authFinish (userId : String) (reqData : WebauthnAuthFinishRequest)
  | selfUpdate (id : String) (upd : UpdateUserSelfRequest)
  | passwordReset (req : HttpRequest) (userId : String) (reqData : PasswordResetRequest)
  | other (p : M ErrorResponse Unit) (h : PutsNone oneTimeCaches p)

namespace OneTimeReq

def prog (data : AppState) : OneTimeReq → M ErrorResponse Unit
  | powCreate => do let _ ← PowEntity.create
  | powCheck challenge => PowEntity.checkPreventReuse challenge
  | login req reqData session => do let _ ← mapErr Prod.fst (authorize data req reqData session)
  | refresh session client headerOrigin reqData => do
      let _ ← authorizeRefresh data session client headerOrigin reqData
  | upstream req payload session => do let _ ← loginFinish data req payload session
  | authStart userId purpose => do let _ ← Rauthy.authStart data userId purpose
  | authFinish userId reqData => do let _ ← Rauthy.authFinish data userId reqData
  | selfUpdate id upd => do let _ ← User.updateSelfReq data id upd
  | passwordReset req userId reqData => do let _ ← handlePutUserPasswordReset data req userId reqData
  | other p _ => p

def challenge : OneTimeReq → Option String
  | powCheck challenge => some challenge
  | _ => none

def mfaCode : OneTimeReq → Option String
  | selfUpdate _ upd => upd.mfaCode
  | passwordReset _ _ reqData => reqData.mfaCode
  | _ => none

/-- The code of the ceremony that the request is to finish. -/
def ceremony : OneTimeReq → Option String
  | authFinish _ reqData => some reqData.code
  | _ => none

end OneTimeReq

abbrev OneTimeOutcome := Except (Fault ErrorResponse) Unit

abbrev OneTimeEvent := Event OneTimeReq Op Op.Res OneTimeOutcome

abbrev OneTimeLog := Log OneTimeReq Op Op.Res OneTimeOutcome

/-! ### What is promised -/

/-- The proof of work has been accepted. -/
def PassedPow (t : ℕ) (c : String) (l : OneTimeLog) : Prop :=
  (∃ q, .start t q ∈ l ∧ q.challenge = some c) ∧ .done t (.ok ()) ∈ l

/-- The MFA code has been accepted, as in `User.checkMfaCode`: the service request was found,
and its deletion is answered. -/
def AcceptedMfa (t : ℕ) (c : String) (l : OneTimeLog) : Prop :=
  (∃ q, .start t q ∈ l ∧ q.mfaCode = some c) ∧
  ∃ l₂ l₁ b svcReq rest, l = l₂ ++ .op t (.cacheDel .webauthnData svcReq.code) (.ok ()) :: l₁ ∧
    WebauthnServiceReq.decode b = some (svcReq, rest) ∧
    .op t (.cacheGet .webauthnData c) (.ok (some (.bytes b))) ∈ l₁

/-- The data of the ceremony have been handed out. -/
def ReleasedData (t : ℕ) (c : String) (l : OneTimeLog) : Prop :=
  (∃ q, .start t q ∈ l ∧ q.ceremony = some c) ∧ .done t (.ok ()) ∈ l

/-- Nothing is used twice. -/
structure UsedOnce (l : OneTimeLog) : Prop where
  pow : ∀ c t t', PassedPow t c l → PassedPow t' c l → t = t'
  mfaCode : ∀ c t t', AcceptedMfa t c l → AcceptedMfa t' c l → t = t'
  ceremony : ∀ c t t', ReleasedData t c l → ReleasedData t' c l → t = t'

/-- The value is looked up by one request at a time; and a ceremony only if those that have
looked it up before have failed. -/
structure OneAtATime (w : World) (l : OneTimeLog) (e : OneTimeEvent) : Prop where
  pow : (cacheTickets .pow).Alone (fun q c => q.challenge = some c) w l e
  mfaCode : (cacheTickets .webauthnData).Alone (fun q c => q.mfaCode = some c) w l e
  ceremony : ∀ t q c v, e = .op t (.cacheGet .webauthnData c) (.ok (some v)) → .start t q ∈ l →
    q.ceremony = some c → ∀ t' q', t' ≠ t → .start t' q' ∈ l → q'.ceremony = some c →
    (cacheTickets .webauthnData).Found t' c l → ∃ e, .done t' (.error e) ∈ l

/-! ### What is stored -/

/-- The encoding starts with the name. -/
def Headed (k : String) (v : CacheVal) : Prop := fits k = true ∧ ∃ b, v = .bytes (encStr k ++ b)

/-- Each entry names itself. -/
structure SelfNamed (w : World) : Prop where
  pow : ∀ k v, w.cache .pow k = some v → v = .pow k
  data : ∀ k v, w.cache .webauthnData k = some v → Headed k v

/-- What a request promises of each of its operations. -/
structure OneTimeStep (tr : List (Seen Op Op.Res)) (s : Seen Op Op.Res) : Prop where
  once : OnceIn oneTimeCaches tr s
  pow : ∀ k v, s.1 = .cachePut .pow k v → v = .pow k
  data : ∀ k v, s.1 = .cachePut .webauthnData k v → Headed k v

theorem Op.PutsNone.oneTimeStep {o : Op} (h : o.PutsNone oneTimeCaches) (tr : List (Seen Op Op.Res))
    (x : o.Res) : OneTimeStep tr ⟨o, x⟩ where
  once := h.onceIn x
  pow k v he := by
    simp only at he
    subst he
    exact absurd (by simp [oneTimeCaches]) h
  data k v he := by
    simp only at he
    subst he
    exact absurd (by simp [oneTimeCaches]) h

section Sees

variable {α : Type} {tr : List (Seen Op Op.Res)} {data : AppState}
  {ε : Type}
  {p : Prog Op Op.Res ε α}

theorem sees_aside (hp : PutsNone oneTimeCaches p) :
    Sees Op.Possible OneTimeStep p (fun _ _ => True) tr :=
  sees_putsNone hp fun _ ho tr x => ho.oneTimeStep tr x

theorem sees_asidePure (hp : Touches [] [] p) :
    Sees Op.Possible OneTimeStep p (fun _ _ => True) tr := sees_aside (putsNone_pure hp)

theorem sees_asideTouches {ts : List Table} {sl : List (CacheName × Slot)} (hp : Touches ts sl p)
    (hsl : ∀ c ∈ oneTimeCaches, ∀ s, (c, s) ∉ sl) :
    Sees Op.Possible OneTimeStep p (fun _ _ => True) tr := sees_aside (putsNone_of_touches hp hsl)

theorem oneTimeStep_getRand (n : ℕ) (s : String) : OneTimeStep tr ⟨.getRand n, s⟩ :=
  Op.PutsNone.oneTimeStep (o := .getRand n) trivial tr s

/-- A value is stored under the name just drawn, with which its encoding starts. -/
theorem sees_saveData {n : ℕ} {code : String} {ok : Bool} {b : Bytes}
    (hfits : ok = true → fits code = true) :
    Sees Op.Possible OneTimeStep (saveData ok code (encStr code ++ b)) (fun _ _ => True)
      (⟨.getRand n, code⟩ :: tr) := by
  refine sees_bind sees_throwIf fun _ tr₁ _ h => ?_
  obtain ⟨rfl, hok⟩ := h
  refine sees_mono (sees_cachePut fun x => ⟨onceIn_put (.getRand n code) x, ?_, ?_⟩)
    fun _ _ _ _ => trivial
  · rintro k v ⟨⟩
  · rintro k v ⟨⟩
    exact ⟨hfits (by simpa using hok), b, rfl⟩

theorem sees_awaitWebauthn (user : User) (session : Session) (hashed : Bool) (loc : String)
    (headerOrigin : Option String) :
    Sees Op.Possible OneTimeStep (awaitWebauthn data user session hashed loc headerOrigin)
      (fun _ _ => True) tr := by
  refine sees_bind (sees_getRand (oneTimeStep_getRand 48)) fun code tr₁ _ h => ?_
  subst h
  refine sees_bind (sees_saveData fun h => ?_) fun _ _ _ _ => sees_ret trivial
  simp only [WebauthnLoginReq.Fits, Bool.and_eq_true] at h
  exact h.1.1.1

theorem sees_newService (userId : String) :
    Sees Op.Possible OneTimeStep (addDataFor.newService userId) (fun _ _ => True) tr := by
  have hnew : Sees Op.Possible OneTimeStep (WebauthnServiceReq.new userId)
      (fun svcReq tr' => tr' = ⟨.getRand 48, svcReq.code⟩ :: tr) tr :=
    sees_bind (sees_getRand (oneTimeStep_getRand 48)) fun code tr₁ _ h => sees_ret h
  refine sees_bind hnew fun svcReq tr₁ _ h => ?_
  subst h
  refine sees_bind (sees_saveData fun h => ?_) fun _ _ _ _ => sees_ret trivial
  simp only [WebauthnServiceReq.Fits, Bool.and_eq_true] at h
  exact h.1

theorem putsNone_findData (dec : Dec α) (what code : String) :
    PutsNone oneTimeCaches (findData dec what code) :=
  putsNone_pure (touches_bind (touches_cacheGet _ _ _) fun _ => touches_okOr _ _)

theorem sees_addDataFor (userId : String) (purpose : MfaPurpose) :
    Sees Op.Possible OneTimeStep (addDataFor userId purpose) (fun _ _ => True) tr := by
  cases purpose with
  | login code => exact sees_aside (putsNone_bind (putsNone_findData _ _ _) fun _ => trivial)
  | passwordNew => exact sees_newService userId
  | passwordReset => exact sees_newService userId
  | test => exact sees_ret trivial

theorem sees_authStart (userId : String) (purpose : MfaPurpose) :
    Sees Op.Possible OneTimeStep (Rauthy.authStart data userId purpose) (fun _ _ => True) tr := by
  have hdelete : ∀ d : WebauthnAdditionalData, Touches [] [] d.delete := by
    rintro (d | d | -)
    · exact touches_cacheDel _ _
    · exact touches_ret _
    · exact touches_ret _
  refine sees_bind (sees_addDataFor userId purpose) fun addData _ _ _ => ?_
  refine sees_bind (sees_asideTouches (User.find_touches userId) (by simp [oneTimeCaches]))
    fun user _ _ _ => ?_
  refine sees_bind (sees_asideTouches (passkeysFor_touches _ _) (by simp [oneTimeCaches]))
    fun pks _ _ _ => ?_
  refine sees_bind (sees_asidePure (touches_throwIf _ _)) fun _ _ _ _ => ?_
  refine sees_bind (sees_asidePure ⟨trivial, fun _ => trivial⟩) fun res _ _ _ => ?_
  cases res with
  | error msg => exact sees_fail
  | ok authState =>
      refine sees_bind (sees_asidePure (hdelete addData)) fun _ _ _ _ => ?_
      refine sees_bind (sees_getRand (oneTimeStep_getRand 48)) fun code tr₁ _ h => ?_
      subst h
      refine sees_bind (sees_saveData fun h => ?_) fun _ _ _ _ => sees_ret trivial
      simp only [WebauthnData.Fits, Bool.and_eq_true] at h
      exact h.1.1

theorem putsNone_updateCredentials (result : AuthenticationResult) (user : User)
    (pks : List PasskeyEntity) :
    PutsNone oneTimeCaches (updateCredentials data result user pks) := by
  have hexec : ∀ ss : List DbWrite, PutsNone oneTimeCaches (execute ss) := fun ss =>
    ⟨trivial, fun x => putsNone_pure (touches_answer x)⟩
  induction pks generalizing user with
  | nil => trivial
  | cons e es ih =>
      unfold updateCredentials
      split
      · exact ih user
      refine putsNone_bind (putsNone_pure touches_unixTimestamp) fun now => ?_
      refine putsNone_bind (hexec _) fun _ => putsNone_bind ?_ fun s => putsNone_bind ?_ fun s' => ?_
      · have hput : ∀ (k : String) (v : PasskeyEntity), Touches [] [(.webauthn, .passkey)]
            (cachePut .webauthn k (.passkey v)) := fun k v => touches_cachePut (by simp [CacheVal.slot]) _
        refine putsNone_bind (hexec _) fun _ => ?_
        refine putsNone_bind (putsNone_of_touches (hput _ _) (by simp [oneTimeCaches])) fun _ => ?_
        exact putsNone_bind (putsNone_pure (touches_cacheDel _ _)) fun _ => trivial
      · refine putsNone_bind (hexec _) fun _ => ?_
        exact putsNone_bind (putsNone_of_touches (User.saveCached_touches _ none)
          (by simp [oneTimeCaches])) fun _ => trivial
      · exact putsNone_bind (hexec _) fun _ => ih _

theorem sees_authorize (req : HttpRequest) (reqData : LoginRequest) (session : Session) :
    Sees Op.Possible OneTimeStep (authorize data req reqData session) (fun _ _ => True) tr := by
  refine sees_bind (sees_asideTouches (authorizeUser_touches req reqData) (by simp [oneTimeCaches]))
    fun user _ _ _ => ?_
  refine sees_bind (sees_asideTouches (touches_mapErr (checkLoginPassword_touches user _))
    (by simp [updateSlots, oneTimeCaches])) fun r _ _ _ => ?_
  obtain ⟨user, hashed⟩ := r
  refine sees_bind (sees_asideTouches (authorizeClient_touches req reqData user hashed)
    (by simp [oneTimeCaches])) fun r _ _ _ => ?_
  obtain ⟨client, headerOrigin⟩ := r
  refine sees_bind (sees_asideTouches (touches_mapErr (issueCode_touches ..))
    (by simp [oneTimeCaches])) fun code _ _ _ => ?_
  refine sees_mapErr ?_
  unfold authorizeStep
  split
  · refine sees_bind (sees_asideTouches (session.setMfa_touches true) (by simp [oneTimeCaches]))
      fun session _ _ _ => ?_
    exact sees_awaitWebauthn _ _ _ _ _
  · exact sees_ret trivial

theorem sees_authorizeRefresh (session : Session) (client : Client) (headerOrigin : Option String)
    (reqData : LoginRefreshRequest) :
    Sees Op.Possible OneTimeStep (authorizeRefresh data session client headerOrigin reqData)
      (fun _ _ => True) tr := by
  refine sees_bind (sees_asidePure (touches_okOr _ _)) fun userId _ _ _ => ?_
  refine sees_bind (sees_asideTouches (User.find_touches userId) (by simp [oneTimeCaches]))
    fun user _ _ _ => ?_
  refine sees_bind (sees_asidePure user.checkEnabled_touches) fun _ _ _ _ => ?_
  refine sees_bind (sees_asidePure user.checkExpired_touches) fun _ _ _ _ => ?_
  refine sees_bind (sees_asidePure (touches_answer _)) fun _ _ _ _ => ?_
  refine sees_bind (sees_asideTouches (issueCode_touches ..) (by simp [oneTimeCaches]))
    fun code _ _ _ => ?_
  split
  · exact sees_awaitWebauthn _ _ _ _ _
  · exact sees_ret trivial

/-- What a request that returns has seen of the value that it presents. -/
structure OneTimeReq.Ends (q : OneTimeReq) (tr : List (Seen Op Op.Res)) : Prop where
  pow : ∀ c, q.challenge = some c → ∃ pow,
    tr = [⟨.cacheDel .pow pow, .ok ()⟩, ⟨.cacheGet .pow c, .ok (some (.pow pow))⟩]
  ceremony : ∀ c, q.ceremony = some c → ∃ v, ⟨.cacheGet .webauthnData c, .ok (some v)⟩ ∈ tr

theorem sees_powCreate :
    Sees Op.Possible OneTimeStep PowEntity.create (fun _ _ => True) tr := by
  have hdraw : Sees Op.Possible OneTimeStep (op Op.newUuid : M ErrorResponse String)
      (fun s tr' => tr' = ⟨.newUuid, s⟩ :: tr) tr :=
    sees_call (o := Op.newUuid)
      (fun s _ => Op.PutsNone.oneTimeStep (o := .newUuid) trivial tr s) fun s _ => sees_ret rfl
  refine sees_bind hdraw fun challenge tr₁ _ h => ?_
  subst h
  refine sees_bind (sees_cachePut fun x => ⟨onceIn_put (.newUuid challenge) x, ?_, ?_⟩)
    fun _ _ _ _ => sees_ret trivial
  · rintro k v ⟨⟩
    rfl
  · rintro k v ⟨⟩

theorem sees_checkPreventReuse (challenge : String) :
    Sees Op.Possible OneTimeStep (PowEntity.checkPreventReuse challenge) (fun _ tr' => ∃ pow,
      tr' = ⟨.cacheDel .pow pow, .ok ()⟩ :: ⟨.cacheGet .pow challenge, .ok (some (.pow pow))⟩ :: tr)
      tr := by
  have hstep : ∀ (o : Op) (tr : List (Seen Op Op.Res)) (x : o.Res), o.PutsNone oneTimeCaches →
      OneTimeStep tr ⟨o, x⟩ := fun o tr x ho => ho.oneTimeStep tr x
  refine sees_bind (sees_cacheGet fun x => hstep (.cacheGet .pow challenge) _ x trivial)
    fun found tr₁ _ hfound => sees_bind sees_okOr fun pow tr₂ _ hpow => ?_
  obtain ⟨y, htr₁, ⟨rfl, -⟩ | ⟨v, a, rfl, rfl, ha⟩⟩ := hfound
  · cases hpow.2
  obtain ⟨rfl, hpow⟩ := hpow
  obtain rfl : a = pow := Option.some.inj hpow
  have hv : v = .pow a := by
    cases v with
    | pow s =>
        cases ha
        rfl
    | _ => cases ha
  refine sees_mono (sees_cacheDel fun x => hstep (.cacheDel .pow a) _ x trivial) fun _ tr₃ _ htr₃ => ?_
  exact ⟨a, by rw [htr₃, htr₁, hv]⟩

/-- The lookup of a value of the shared cache has found something. -/
theorem sees_findData {dec : Dec α} {what code : String} :
    Sees Op.Possible OneTimeStep (findData dec what code) (fun d tr' => ∃ b rest,
      tr' = ⟨.cacheGet .webauthnData code, .ok (some (.bytes b))⟩ :: tr ∧ dec b = some (d, rest))
      tr := by
  have hstep : ∀ x, OneTimeStep tr ⟨.cacheGet .webauthnData code, x⟩ := fun x =>
    Op.PutsNone.oneTimeStep (o := .cacheGet .webauthnData code) trivial tr x
  refine sees_bind (sees_cacheGet hstep) fun found tr₁ _ hfound => ?_
  refine sees_mono sees_okOr fun d tr₂ _ hd => ?_
  obtain ⟨y, htr₁, ⟨rfl, -⟩ | ⟨v, a, rfl, rfl, ha⟩⟩ := hfound
  · cases hd.2
  obtain ⟨rfl, hd⟩ := hd
  obtain rfl : a = d := Option.some.inj hd
  cases v with
  | bytes b =>
      obtain ⟨⟨d, rest⟩, hdec, hfst⟩ := Option.map_eq_some_iff.mp ha
      cases hfst
      exact ⟨b, rest, htr₁, hdec⟩
  | _ => cases ha

theorem sees_authFinish (userId : String) (reqData : WebauthnAuthFinishRequest) :
    Sees Op.Possible OneTimeStep (Rauthy.authFinish data userId reqData)
      (fun _ tr' => ∃ v, ⟨.cacheGet .webauthnData reqData.code, .ok (some v)⟩ ∈ tr') tr := by
  refine sees_bind sees_findData fun authData tr₁ _ h => ?_
  obtain ⟨b, rest, htr₁, -⟩ := h
  have hmem : ⟨.cacheGet .webauthnData reqData.code, .ok (some (.bytes b))⟩ ∈ tr₁ := by
    rw [htr₁]
    exact List.mem_cons_self
  -- the rest adds to what has been seen
  have hrest : ∀ {p : M ErrorResponse WebauthnAdditionalData}, PutsNone oneTimeCaches p →
      Sees Op.Possible OneTimeStep p
        (fun _ tr' => ∃ v, ⟨.cacheGet .webauthnData reqData.code, .ok (some v)⟩ ∈ tr') tr₁ :=
    fun hp => sees_mono (sees_aside hp) fun _ tr' hsub _ => ⟨_, hsub _ hmem⟩
  refine hrest (putsNone_bind (putsNone_pure (touches_unwrap _ _)) fun authState => ?_)
  refine putsNone_bind (putsNone_of_touches (User.find_touches userId) (by simp [oneTimeCaches]))
    fun user => ?_
  refine putsNone_bind (putsNone_of_touches (PasskeyEntity.findForUser_touches _)
    (by simp [oneTimeCaches])) fun pks => ?_
  refine putsNone_bind ⟨trivial, fun _ => trivial⟩ fun res => ?_
  cases res with
  | error msg => trivial
  | ok result =>
      refine putsNone_bind (putsNone_pure (touches_throwIf _ _)) fun _ => ?_
      exact putsNone_bind (putsNone_updateCredentials _ _ _) fun _ => trivial

theorem sees_oneTimeReq (q : OneTimeReq) :
    Sees Op.Possible OneTimeStep (q.prog data) (fun _ tr => q.Ends tr) [] := by
  have hother : ∀ {p : M ErrorResponse Unit}, q.challenge = none → q.ceremony = none →
      Sees Op.Possible OneTimeStep p (fun _ _ => True) [] →
      Sees Op.Possible OneTimeStep p (fun _ tr => q.Ends tr) [] := by
    intro p hc hm hp
    refine sees_mono hp fun _ tr' _ _ => ⟨fun c h => ?_, fun c h => ?_⟩
    · rw [hc] at h
      cases h
    · rw [hm] at h
      cases h
  cases q with
  | powCreate =>
      exact hother rfl rfl (sees_bind sees_powCreate fun _ _ _ _ => sees_ret trivial)
  | powCheck challenge =>
      refine sees_mono (sees_checkPreventReuse challenge) fun _ tr' _ h => ⟨?_, ?_⟩
      · rintro c ⟨⟩
        exact h
      · rintro c ⟨⟩
  | login req reqData session =>
      exact hother rfl rfl (sees_bind (sees_mapErr (sees_authorize req reqData session))
        fun _ _ _ _ => sees_ret trivial)
  | refresh session client headerOrigin reqData =>
      exact hother rfl rfl (sees_bind (sees_authorizeRefresh session client headerOrigin reqData)
        fun _ _ _ _ => sees_ret trivial)
  | upstream req payload session =>
      refine hother rfl rfl (sees_bind (sees_loginFinish (fun o ho tr x => ?_) 
        fun user session hashed loc origin tr => sees_awaitWebauthn user session hashed loc origin)
        fun _ _ _ _ => sees_ret trivial)
      exact (ho.subset (by simp [ticketCaches, oneTimeCaches])).oneTimeStep tr x
  | authStart userId purpose =>
      exact hother rfl rfl (sees_bind (sees_authStart userId purpose) fun _ _ _ _ => sees_ret trivial)
  | authFinish userId reqData =>
      refine sees_bind (sees_authFinish userId reqData) fun _ tr' _ h => sees_ret ⟨?_, ?_⟩
      · rintro c ⟨⟩
      · rintro c ⟨⟩
        exact h
  | selfUpdate id upd =>
      exact hother rfl rfl (sees_bind (sees_asideTouches (User.updateSelfReq_touches id upd)
        (by simp [updateSlots, oneTimeCaches])) fun _ _ _ _ => sees_ret trivial)
  | passwordReset req userId reqData =>
      exact hother rfl rfl (sees_bind (sees_asideTouches
        (handlePutUserPasswordReset_touches req userId reqData) (by simp [updateSlots, oneTimeCaches]))
        fun _ _ _ _ => sees_ret trivial)
  | other p h => exact hother rfl rfl (sees_aside h)

end Sees

/-! ### All interleavings -/

/-- The entries of the two caches are stored under names that were drawn, and name themselves. -/
structure OneTimeOk (w : World) : Prop where
  issued : ∀ c ∈ oneTimeCaches, ∀ k, w.cache c k ≠ none → k ∈ w.issued
  named : SelfNamed w

section Runs

variable {data : AppState} {w₀ : World} {C : World → OneTimeLog → OneTimeEvent → Prop}
  {P : Pool OneTimeReq Op Op.Res World (Fault ErrorResponse) Unit} {t : ℕ} {c : String}

theorem self_named (h₀ : SelfNamed w₀) (h : Run (OneTimeReq.prog data) sem C (init w₀) P) :
    SelfNamed P.world := by
  refine (Run.inv_of_seen (A := fun _ => Op.Possible) (G := fun _ => OneTimeStep)
    (F := fun q r tr => ∀ b, r = .ok b → q.Ends tr) (I := fun w _ => SelfNamed w) sees_oneTimeReq
    (fun w l t q o x w' _ _ hx _ => ⟨w, w', hx⟩) h₀ ?_ ?_ ?_ h).1
  · exact fun w l t q hI _ _ => hI
  · intro w l t q o x w' hI _ _ hx _ hG
    refine ⟨fun k v hv => ?_, fun k v hv => ?_⟩
    · rcases sem_cache hx hv with hold | hput
      · exact hI.pow k v hold
      · exact hG.pow k v hput
    · rcases sem_cache hx hv with hold | hput
      · exact hI.data k v hold
      · exact hG.data k v hput
  · exact fun w l t q r hI _ _ _ _ => hI

/-- What a lookup has found was stored under its own name. -/
theorem found_named (h₀ : SelfNamed w₀) (h : Run (OneTimeReq.prog data) sem C (init w₀) P)
    {n : CacheName} {k : String} {v : CacheVal}
    (hmem : .op t (.cacheGet n k) (.ok (some v)) ∈ P.log) :
    ∃ w, SelfNamed w ∧ w.cache n k = some v := by
  obtain ⟨m, l, hl⟩ := List.append_of_mem hmem
  have hpast := Run.past (I := fun w _ => SelfNamed w) (fun P hP => self_named h₀ hP) h
  obtain ⟨w, w', hI, -, -, hop⟩ := hpast.of_suffix ⟨m, hl.symm⟩
  refine ⟨w, hI, ?_⟩
  rcases sem_cacheGet.mp (hop _ _ _ rfl).1 with ⟨hv, -⟩ | ⟨hv, -⟩ | ⟨e, hv, -⟩
  · exact (Except.ok.inj hv).symm
  · cases hv
  · cases hv

/-- What a request that has ended well has seen before its end. -/
theorem ends_of_done (h : Run (OneTimeReq.prog data) sem C (init w₀) P) {q : OneTimeReq}
    (hq : .start t q ∈ P.log) (hdone : .done t (.ok ()) ∈ P.log) :
    ∃ m n, P.log = m ++ .done t (.ok ()) :: n ∧ q.Ends (seenBy t n) := by
  have hends := Run.promises (A := fun _ => Op.Possible) (G := fun _ => OneTimeStep)
    (F := fun q r tr => ∀ b, r = .ok b → q.Ends tr) sees_oneTimeReq
    (fun w l t q o x w' _ hx _ => ⟨w, w', hx⟩) h
  obtain ⟨m, n, hm⟩ := List.append_of_mem hdone
  obtain ⟨-, hend⟩ := hends.of_suffix ⟨m, hm.symm⟩
  obtain ⟨q', hq', hF⟩ := hend t _ rfl
  have hstart : .start t q' ∈ P.log := by rw [hm]; simp [hq']
  obtain rfl : q' = q := h.start_unique hstart hq
  exact ⟨m, n, hm, hF () rfl⟩

/-- A challenge that has been accepted was found, and then deleted. -/
theorem PassedPow.took (h₀ : SelfNamed w₀) (h : Run (OneTimeReq.prog data) sem C (init w₀) P)
    (ht : PassedPow t c P.log) : (cacheTickets .pow).Took t c P.log := by
  obtain ⟨⟨q, hq, hc⟩, hdone⟩ := ht
  obtain ⟨m, n, hm, hends⟩ := ends_of_done h hq hdone
  obtain ⟨pow, htr⟩ := hends.pow c hc
  have hseen : seenBy t n = [] ++ ⟨.cacheDel .pow pow, .ok ()⟩ ::
      [⟨.cacheGet .pow c, .ok (some (.pow pow))⟩] := htr
  obtain ⟨l₂, l₁, hn, -, h₁⟩ := split_of_seenBy hseen
  have hget : .op t (.cacheGet .pow c) (.ok (some (.pow pow))) ∈ l₁ :=
    mem_of_seenBy (by rw [h₁]; exact List.mem_cons_self)
  -- the entry names itself
  obtain ⟨w, hw, hv⟩ := found_named h₀ h (t := t) (n := .pow) (k := c) (v := .pow pow)
    (by rw [hm, hn]; simp [hget])
  cases hw.pow c _ hv
  exact ⟨m ++ .done t (.ok ()) :: l₂, _, _, l₁, by rw [hm, hn]; simp, .inl rfl, _, _, hget, _, rfl⟩

theorem decode_headed {v b : Bytes} {svcReq : WebauthnServiceReq} {rest : Bytes} {k : String}
    (hfits : fits k = true) (hv : v = encStr k ++ b)
    (h : WebauthnServiceReq.decode v = some (svcReq, rest)) : svcReq.code = k := by
  have hlen : (Text.asBytes k).length < 256 ^ 8 := by
    simp only [fits, decide_eq_true_eq] at hfits
    omega
  rw [hv] at h
  simp only [WebauthnServiceReq.decode, decStr_encStr hlen, Option.bind_eq_bind,
    Option.bind_some] at h
  obtain ⟨⟨userId, rest'⟩, -, he⟩ := Option.bind_eq_some_iff.mp h
  cases he
  rfl

theorem AcceptedMfa.took (h₀ : SelfNamed w₀) (h : Run (OneTimeReq.prog data) sem C (init w₀) P)
    (ht : AcceptedMfa t c P.log) : (cacheTickets .webauthnData).Took t c P.log := by
  obtain ⟨-, l₂, l₁, b, svcReq, rest, hl, hdec, hget⟩ := ht
  obtain ⟨w, hw, hv⟩ := found_named h₀ h (t := t) (n := .webauthnData) (k := c) (v := .bytes b)
    (by rw [hl]; simp [hget])
  obtain ⟨hfits, b', hb⟩ := hw.data c _ hv
  cases hb
  have hcode := decode_headed hfits rfl hdec
  rw [hcode] at hl
  exact ⟨l₂, _, _, l₁, hl, .inl rfl, _, _, hget, _, rfl⟩

theorem ReleasedData.found (h : Run (OneTimeReq.prog data) sem C (init w₀) P)
    (ht : ReleasedData t c P.log) :
    ∃ v, .op t (.cacheGet .webauthnData c) (.ok (some v)) ∈ P.log := by
  obtain ⟨⟨q, hq, hc⟩, hdone⟩ := ht
  obtain ⟨m, n, hm, hends⟩ := ends_of_done h hq hdone
  obtain ⟨v, hmem⟩ := hends.ceremony c hc
  exact ⟨v, by rw [hm]; simp [mem_of_seenBy hmem]⟩

/-- **Nothing is used twice**, if it is presented by one request at a time. -/
theorem used_once (h₀ : OneTimeOk w₀)
    (h : Run (OneTimeReq.prog data) sem OneAtATime (init w₀) P) : UsedOnce P.log := by
  have hprog : ∀ n ∈ oneTimeCaches, ∀ q : OneTimeReq, seenWp Op.Possible (cacheTickets n).Once
      (q.prog data) (fun r tr => ∀ b, r = .ok b → q.Ends tr) [] :=
    fun n hn q => seenWp_weaken (sees_oneTimeReq q) fun _ _ hs => hs.once n hn
  have htaken : ∀ n ∈ oneTimeCaches, ∀ D : OneTimeReq → String → Prop,
      (∀ w l e, OneAtATime w l e → (cacheTickets n).Alone D w l e) → ∀ t t' q q' c,
      .start t q ∈ P.log → .start t' q' ∈ P.log → D q c → D q' c →
      (cacheTickets n).Took t c P.log → (cacheTickets n).Took t' c P.log → t = t' := by
    intro n hn D hC t t' q q' c hq hq' hD hD' ht ht'
    exact Run.taken_once (A := fun _ => Op.Possible) (cacheTickets_lawful n) (h₀.issued n hn)
      (hprog n hn) (fun w l t q o x w' _ hx _ => ⟨w, w', hx⟩) hC h hq hq' hD hD' ht ht'
  refine ⟨fun c t t' ht ht' => ?_, fun c t t' ht ht' => ?_, fun c t t' ht ht' => ?_⟩
  · obtain ⟨⟨q, hq, hc⟩, -⟩ := id ht
    obtain ⟨⟨q', hq', hc'⟩, -⟩ := id ht'
    exact htaken .pow (by simp [oneTimeCaches]) _ (fun w l e hC => hC.pow) t t' q q' c hq hq' hc hc'
      (ht.took h₀.named h) (ht'.took h₀.named h)
  · obtain ⟨⟨q, hq, hc⟩, -⟩ := id ht
    obtain ⟨⟨q', hq', hc'⟩, -⟩ := id ht'
    exact htaken .webauthnData (by simp [oneTimeCaches]) _ (fun w l e hC => hC.mfaCode) t t' q q' c
      hq hq' hc hc' (ht.took h₀.named h) (ht'.took h₀.named h)
  · -- the one that has found it later shows that the other one has failed
    have hpast := Run.past (I := fun _ _ => True) (fun _ _ => trivial) h
    have hlate : ∀ {t t' : ℕ} {v v' : CacheVal} {m n : OneTimeLog}, t' ≠ t →
        P.log = m ++ .op t (.cacheGet .webauthnData c) (.ok (some v)) :: n →
        ReleasedData t c P.log → ReleasedData t' c P.log →
        .op t' (.cacheGet .webauthnData c) (.ok (some v')) ∈ n → False := by
      intro t t' v v' m n hne hm ht ht' hfound
      obtain ⟨⟨q, hq, hc⟩, -⟩ := ht
      obtain ⟨⟨q', hq', hc'⟩, hdone⟩ := ht'
      obtain ⟨w, w', -, hC, -, hop⟩ := hpast.of_suffix ⟨m, hm.symm⟩
      obtain ⟨-, ⟨q₁, hq₁⟩, -⟩ := hop _ _ _ rfl
      have hstart : .start t q₁ ∈ P.log := by rw [hm]; simp [hq₁]
      obtain rfl : q₁ = q := h.start_unique hstart hq
      obtain ⟨b, a, rfl⟩ := List.append_of_mem hfound
      have hm' : P.log = (m ++ .op t (.cacheGet .webauthnData c) (.ok (some v)) :: b) ++
          .op t' (.cacheGet .webauthnData c) (.ok (some v')) :: a := by rw [hm]; simp
      obtain ⟨_, _, -, -, -, hop'⟩ := hpast.of_suffix ⟨_, hm'.symm⟩
      obtain ⟨-, ⟨q₂, hq₂⟩, -⟩ := hop' _ _ _ rfl
      have hstart' : .start t' q₂ ∈ P.log := by rw [hm']; simp [hq₂]
      obtain rfl : q₂ = q' := h.start_unique hstart' hq'
      obtain ⟨e, he⟩ := hC.ceremony t q₁ c v rfl hq₁ hc t' q₂ hne (by simp [hq₂]) hc'
        ⟨_, _, hfound, _, rfl⟩
      have herror : .done t' (.error e) ∈ P.log := by
        rw [hm]
        exact List.mem_append_right _ (List.mem_cons_of_mem _ he)
      cases h.done_unique hdone herror
    by_contra hne
    obtain ⟨v, hmem⟩ := ht.found h
    obtain ⟨v', hmem'⟩ := ht'.found h
    obtain ⟨m, n, hm⟩ := List.append_of_mem hmem
    obtain ⟨m', n', hm'⟩ := List.append_of_mem hmem'
    rcases Log.split_cases (hm.symm.trans hm') with ⟨he, -⟩ | ⟨-, r, hr⟩ | ⟨r, hr⟩
    · cases he
      exact hne rfl
    · have hfound : .op t' (.cacheGet .webauthnData c) (.ok (some v')) ∈ n := by
        rw [hr]
        simp
      exact hlate (Ne.symm hne) hm ht ht' hfound
    · have hfound : .op t (.cacheGet .webauthnData c) (.ok (some v)) ∈ n' := by
        rw [hr]
        simp
      exact hlate hne hm' ht' ht hfound

end Runs

/-- alice has one passkey. -/
def passkeyWorld : World where
  clock := 0
  issued := []
  db
    | .users => [{ sampleUser with webauthnUserId := some "uuid" }]
    | .passkeys => [{
        userId := "alice", name := "key", passkeyUserId := "uuid", passkey := ⟨[1], 0⟩,
        credentialId := [1], registered := 0, lastUsed := 0, userVerified := some true }]
    | _ => []
  cache _ _ := none

theorem passkeyWorld_ok : OneTimeOk passkeyWorld where
  issued _ _ _ h := absurd rfl h
  named := ⟨fun _ _ h => (by cases h), fun _ _ h => (by cases h)⟩

/-- The request presents this value, and has returned without an error. -/
def returnedWith (f : OneTimeReq → Option String) (c : String) (l : OneTimeLog) (t : ℕ) : Bool :=
  (match Log.startOf t l with
    | some q => f q == some c
    | none => false) &&
  match Log.doneOf t l with
  | some (.ok ()) => true
  | _ => false

theorem of_returnedWith {f : OneTimeReq → Option String} {c : String} {l : OneTimeLog} {t : ℕ}
    (h : returnedWith f c l t = true) :
    (∃ q, .start t q ∈ l ∧ f q = some c) ∧ .done t (.ok ()) ∈ l := by
  rw [returnedWith, Bool.and_eq_true] at h
  obtain ⟨hstart, hdone⟩ := h
  refine ⟨?_, ?_⟩
  · split at hstart
    · next q hq => exact ⟨q, Log.mem_of_startOf hq, beq_iff_eq.mp hstart⟩
    · cases hstart
  · split at hdone
    · next hd => exact Log.mem_of_doneOf hd
    · cases hdone

/-- One after the other, a challenge is accepted by the first request only. -/
def powMoves : List (Move OneTimeReq Choice) :=
  [.start 0 .powCreate, .op 0 (.rand "challenge"), .op 0 .ok, .done 0,
    .start 1 (.powCheck "challenge"), .op 1 .ok, .op 1 .ok, .done 1,
    .start 2 (.powCheck "challenge"), .op 2 .ok, .done 2]

/-- One request at a time, and no ceremony is found. -/
def soloMoves (w : World) (l : OneTimeLog) (e : OneTimeEvent) : Bool :=
  Solo w l e && match e with
    | .op _ (.cacheGet .webauthnData _) (.ok (some _)) => false
    | _ => true

theorem oneAtATime_of_soloMoves {w : World} {l : OneTimeLog} {e : OneTimeEvent}
    (h : soloMoves w l e = true) : OneAtATime w l e := by
  simp only [soloMoves, Bool.and_eq_true] at h
  obtain ⟨hsolo, hnone⟩ := h
  refine ⟨?_, ?_, ?_⟩
  · rintro t q o x k rfl - - - t' q' hne - - -
    exact not_running_of_solo hsolo hne
  · rintro t q o x k rfl - - - t' q' hne - - -
    exact not_running_of_solo hsolo hne
  · rintro t q c v rfl
    cases hnone

theorem used_once_pow : ∃ P, Run (OneTimeReq.prog sampleState) sem OneAtATime (init passkeyWorld) P ∧
    PassedPow 1 "challenge" P.log ∧ UsedOnce P.log := by
  obtain ⟨P, hrun, hP⟩ := exists_run_of_moves (C := OneAtATime) (OneTimeReq.prog sampleState) Op.run
    soloMoves passkeyWorld powMoves
    (fun P => returnedWith OneTimeReq.challenge "challenge" P.log 1) (by decide +kernel)
    (fun _ _ _ h => oneAtATime_of_soloMoves h)
  exact ⟨P, hrun, of_returnedWith hP, used_once passkeyWorld_ok hrun⟩

/-! ### A ceremony that is finished twice -/

def ceremonyCode : String := "cccccccccccccccccccccccccccccccccccccccccccccccc"

/-- Request 0 starts a ceremony; requests 1 and 2 finish it, one after the other. -/
def ceremonyMoves : List (Move OneTimeReq Choice) :=
  .start 0 (.authStart "alice" .test) ::
    ([.ok, .ok, .ok, .ok, .ok, .ok, .rand "nonce", .rand ceremonyCode, .ok].map (.op 0)) ++
  .done 0 :: [1, 2].flatMap fun t =>
    .start t (.authFinish "alice" ⟨ceremonyCode, "assertion"⟩) ::
      ([.ok, .ok, .miss, .ok, .ok, .assertion ⟨[1], true, 1⟩, .time 0, .ok, .ok, .ok, .ok, .ok, .ok,
        .ok, .ok].map (.op t)) ++ [.done t]

/-- Two requests look a challenge up before one of them deletes it. -/
def powRace : List (Move OneTimeReq Choice) :=
  [.start 0 .powCreate, .op 0 (.rand "challenge"), .op 0 .ok, .done 0,
    .start 1 (.powCheck "challenge"), .op 1 .ok, .start 2 (.powCheck "challenge"), .op 2 .ok,
    .op 1 .ok, .done 1, .op 2 .ok, .done 2]

/-- **The data of a ceremony are handed out twice**, by requests one after the other; and a
challenge is accepted from two requests at the same time. -/
theorem ceremony_released_twice :
    (∃ P, Run (OneTimeReq.prog sampleState) sem (fun _ _ _ => True) (init passkeyWorld) P ∧
      ReleasedData 1 ceremonyCode P.log ∧ ReleasedData 2 ceremonyCode P.log ∧ ¬ UsedOnce P.log) ∧
    ∃ P, Run (OneTimeReq.prog sampleState) sem (fun _ _ _ => True) (init passkeyWorld) P ∧
      PassedPow 1 "challenge" P.log ∧ PassedPow 2 "challenge" P.log ∧ ¬ UsedOnce P.log := by
  constructor
  · obtain ⟨P, hrun, hP⟩ := exists_run_of_moves (C := fun _ _ _ => True) (OneTimeReq.prog sampleState)
      Op.run (fun _ _ _ => true) passkeyWorld ceremonyMoves
      (fun P => [1, 2].all (returnedWith OneTimeReq.ceremony ceremonyCode P.log))
      (by decide +kernel) (fun _ _ _ _ => trivial)
    have h : ∀ t ∈ [1, 2], ReleasedData t ceremonyCode P.log := fun t ht =>
      of_returnedWith (List.all_eq_true.mp hP t ht)
    refine ⟨P, hrun, h 1 (by simp), h 2 (by simp), fun hno => ?_⟩
    cases hno.ceremony _ 1 2 (h 1 (by simp)) (h 2 (by simp))
  · obtain ⟨P, hrun, hP⟩ := exists_run_of_moves (C := fun _ _ _ => True) (OneTimeReq.prog sampleState)
      Op.run (fun _ _ _ => true) passkeyWorld powRace
      (fun P => [1, 2].all (returnedWith OneTimeReq.challenge "challenge" P.log))
      (by decide +kernel) (fun _ _ _ _ => trivial)
    have h : ∀ t ∈ [1, 2], PassedPow t "challenge" P.log := fun t ht =>
      of_returnedWith (List.all_eq_true.mp hP t ht)
    refine ⟨P, hrun, h 1 (by simp), h 2 (by simp), fun hno => ?_⟩
    cases hno.pow _ 1 2 (h 1 (by simp)) (h 2 (by simp))

end Rauthy
