/-
Rauthy/Ceremonies.lean

Whose passkey a login has been finished with.  The request of a login and the data of its
ceremony lie in one cache, and both requests of a ceremony name a user in their path; what is
released at the end is the login that the data hold.

`auth_start` does not compare the user of its path with that of the login, and `auth_finish`
relies on it.

Main results:
  * `released_by_owner`: if every ceremony of a login is one for its own user, the assertion that
    releases it is by a credential of that user, and user-verified where that is needed;
  * `released_by_other`: without, another user's passkey releases it.
-/
import Rauthy.LoginRuns

namespace Rauthy

open Prog Pool Bincode

/-! ### What the bytes are read back as -/

theorem decStr_fits {s : String} (h : fits s = true) (r : Bytes) :
    decStr (encStr s ++ r) = some (s, r) := by
  refine decStr_encStr (Nat.lt_of_lt_of_le (of_decide_eq_true h) ?_) r
  decide

namespace WebauthnLoginReq

theorem decode_encode {d : WebauthnLoginReq} (h : d.Fits = true) (r : Bytes) :
    decode (d.encode ++ r) = some (d, r) := by
  simp only [Fits, Bool.and_eq_true] at h
  obtain ⟨⟨⟨hcode, huser⟩, hloc⟩, horigin⟩ := h
  have hopt : decOption decStr (encOption encStr d.headerOrigin ++ r) = some (d.headerOrigin, r) :=
    decOption_encOption (fun o ho r => decStr_fits (by
      rw [Option.mem_def.mp ho] at horigin
      exact horigin) r) r
  simp only [decode, encode, List.append_assoc, decStr_fits hcode, decStr_fits huser,
    decStr_fits hloc, hopt, Option.bind_eq_bind, Option.bind_some, Option.pure_def]

end WebauthnLoginReq

namespace WebauthnServiceReq

theorem decode_encode {d : WebauthnServiceReq} (h : d.Fits = true) (r : Bytes) :
    decode (d.encode ++ r) = some (d, r) := by
  obtain ⟨hcode, huser⟩ := Bool.and_eq_true_iff.mp h
  simp only [decode, encode, List.append_assoc, decStr_fits hcode, decStr_fits huser,
    Option.bind_eq_bind, Option.bind_some, Option.pure_def]

end WebauthnServiceReq

theorem WebauthnAdditionalData.decode_encode {d : WebauthnAdditionalData} (h : d.Fits = true)
    (r : Bytes) : decode (d.encode ++ r) = some (d, r) := by
  cases d with
  | login d =>
      simp only [decode, encode, List.append_assoc, decInt_leBytes (show 0 < 256 ^ 4 by decide),
        Option.bind_eq_bind, Option.bind_some, WebauthnLoginReq.decode_encode h, Option.map_some]
  | service d =>
      simp only [decode, encode, List.append_assoc, decInt_leBytes (show 1 < 256 ^ 4 by decide),
        Option.bind_eq_bind, Option.bind_some, WebauthnServiceReq.decode_encode h, Option.map_some]
  | test =>
      simp only [decode, encode, decInt_leBytes (show 2 < 256 ^ 4 by decide), Option.bind_eq_bind,
        Option.bind_some]

namespace WebauthnData

theorem decode_encode {d : WebauthnData} (h : d.Fits = true) (r : Bytes) :
    decode (d.encode ++ r) = some (d, r) := by
  simp only [Fits, Bool.and_eq_true] at h
  obtain ⟨⟨hcode, hjson⟩, hdata⟩ := h
  simp only [decode, encode, List.append_assoc, decStr_fits hcode, decStr_fits hjson,
    WebauthnAdditionalData.decode_encode hdata, Option.bind_eq_bind, Option.bind_some,
    Option.pure_def]

/-- The request of a login is not read as a ceremony: where the variant of the data would be,
there is the length of its location. -/
theorem decode_loginReq {d : WebauthnLoginReq} (h : d.Fits = true)
    (hloc : 2 < (Text.asBytes d.headerLoc).length) : decode d.encode = none := by
  simp only [WebauthnLoginReq.Fits, Bool.and_eq_true] at h
  obtain ⟨⟨⟨hcode, huser⟩, hfits⟩, -⟩ := h
  obtain ⟨r, hr⟩ := decInt_encStr (s := d.headerLoc) (of_decide_eq_true hfits)
    (encOption encStr d.headerOrigin)
  have hvariant : WebauthnAdditionalData.decode
      (encStr d.headerLoc ++ encOption encStr d.headerOrigin) = none := by
    rw [WebauthnAdditionalData.decode, hr]
    rcases hn : (Text.asBytes d.headerLoc).length with - | - | - | n
    · omega
    · omega
    · omega
    · rfl
  simp only [decode, WebauthnLoginReq.encode, decStr_fits hcode, decStr_fits huser, hvariant,
    Option.bind_eq_bind, Option.bind_some, Option.bind_none]

/-- The request of a service ends where the data would begin. -/
theorem decode_serviceReq {d : WebauthnServiceReq} (h : d.Fits = true) :
    decode d.encode = none := by
  obtain ⟨hcode, huser⟩ := Bool.and_eq_true_iff.mp h
  have hsplit : d.encode = encStr d.code ++ (encStr d.userId ++ []) := by
    rw [List.append_nil]
    rfl
  have hempty : WebauthnAdditionalData.decode [] = none := rfl
  simp only [decode, hsplit, decStr_fits hcode, decStr_fits huser, hempty, Option.bind_eq_bind,
    Option.bind_some, Option.bind_none]

end WebauthnData

theorem length_codeLocation (uri code : String) (state : Option String) :
    2 < (Text.asBytes (codeLocation uri code state)).length := by
  have happend : ∀ a b : String, Text.asBytes (a ++ b) = Text.asBytes a ++ Text.asBytes b := by
    intro a b
    simp [Text.asBytes, String.toList_append, List.flatMap_append]
  have hmark : (Text.asBytes "?code=").length = 6 := by decide
  cases state with
  | none =>
      show 2 < (Text.asBytes (uri ++ "?code=" ++ code)).length
      rw [happend, happend, List.length_append, List.length_append, hmark]
      omega
  | some state =>
      show 2 < (Text.asBytes (uri ++ "?code=" ++ code ++ "&state=" ++ state)).length
      rw [happend, happend, happend, happend, List.length_append, List.length_append,
        List.length_append, List.length_append, hmark]
      omega

/-! ### What is claimed -/

/-- A credential of the user has been selected from the table. -/
def RegisteredTo (uid : String) (cred : CredentialID) (l : LoginRunLog) : Prop :=
  ∃ t p rows pk, .op t (.select .passkeys p) (.ok rows) ∈ l ∧ pk ∈ rows ∧ pk.userId = uid ∧
    pk.passkey.credId = cred

/-- Request `t` has accepted an assertion by a credential of the user. -/
def AssertedBy (uid : String) (t : ℕ) (result : AuthenticationResult) (l : LoginRunLog) : Prop :=
  (∃ cred st, .op t (.finishPasskeyAuthentication cred st) (.ok result) ∈ l) ∧
    RegisteredTo uid result.credId l

/-- The request has released this login. -/
def ReleasesLogin (t : ℕ) (d : WebauthnLoginReq) (l : LoginRunLog) : Prop :=
  ∃ r, .done t (.ok r) ∈ l ∧ r.answer = some (.authFinished (.login d))

/-- A ceremony for passkeys of this user, as it is stored. -/
def CeremonyOf (data : AppState) (u : User) (wd : WebauthnData) (tr : List (Seen Op Op.Res)) :
    Prop :=
  wd.Fits = true ∧ HasReadUser u tr ∧ ∃ uv pks v st, v ∈ tr ∧ ReadsPasskeys u.id uv pks v ∧
    st.credentials = pks.map (fun pk => pk.passkey.credId) ∧
    wd.authStateJson = data.authStateToJson st

/-- What a ceremony that is started for a login belongs to: the data are stored after the user of
the path and its passkeys have been read. -/
def StartedForOwner (l : LoginRunLog) (e : LoginRunEvent) : Prop :=
  ∀ t k wd d x req id purpose,
    e = .op t (.cachePut .webauthnData k (.bytes (WebauthnData.encode wd))) x →
    wd.Fits = true → .start t (.endpoint (.authStart req id purpose)) ∈ l → wd.data = .login d →
    ∀ u, HasReadUser u (seenBy t l) → u.id = d.userId

/-- Also the end of a ceremony for a login is asked for under its own user. -/
def FinishedForOwner (l : LoginRunLog) (e : LoginRunEvent) : Prop :=
  ∀ t r id req wd d, e = .done t r → .start t (.endpoint (.authFinish id req)) ∈ l →
    FoundData WebauthnData.decode req.code wd (seenBy t l) → wd.data = .login d →
    ∀ u, HasReadUser u (seenBy t l) → u.id = d.userId

/-- A login is released by the passkeys of its user, and verified if that is needed. -/
def ReleasedByOwner (data : AppState) (t : ℕ) (d : WebauthnLoginReq) (l : LoginRunLog) : Prop :=
  ∃ result, AssertedBy d.userId t result l ∧ ∃ u, HasReadUser u (seenBy t l) ∧ u.id = d.userId ∧
    (forceUv data u = true → result.userVerified = true)

section Runs

variable {data : AppState} {pages : LoginPages} {C : World → LoginRunLog → LoginRunEvent → Prop}
  {w₀ : World} {P : LoginRunPool}
  {t : ℕ}

/-- The passkeys that a request has found are rows of their user. -/
theorem Run.passkeys_of_user (hkeys₀ : ∀ k ls, w₀.cache .webauthn k ≠ some (.passkeys ls))
    (h : Run (LoginCall.prog data pages) sem C (init w₀) P) {uid : String} {uv : Bool}
    {pks : List PasskeyEntity} {v : Seen Op Op.Res} (hv : v ∈ seenBy t P.log)
    (hread : ReadsPasskeys uid uv pks v) {pk : PasskeyEntity} (hpk : pk ∈ pks) :
    RegisteredTo uid pk.passkey.credId P.log := by
  -- however the list has been found, it was selected
  suffices hselect : ∃ t uv, .op t (.select .passkeys (passkeyFilter uid uv)) (.ok pks) ∈ P.log by
    obtain ⟨t, uv, hmem⟩ := hselect
    obtain ⟨l, -, hl⟩ := Run.happened h hmem
    have hrow := Op.possible_select (hl.possible t _ _ rfl) pk hpk
    refine ⟨t, _, pks, pk, hmem, hpk, ?_, rfl⟩
    cases uv with
    | false => exact beq_iff_eq.mp hrow
    | true => exact beq_iff_eq.mp (Bool.and_eq_true_iff.mp hrow).1
  rcases hread with rfl | rfl
  · rcases Run.found_put h (mem_of_seenBy hv) with h₀ | ⟨t', x, hput⟩
    · exact absurd h₀ (hkeys₀ _ _)
    · obtain ⟨l, hsub, hl⟩ := Run.happened h hput
      obtain ⟨q, -, hstep⟩ := hl.step t' _ _ rfl
      obtain ⟨uid', uv', hk, hmem⟩ := hstep.lists _ _ rfl
      obtain rfl := PasskeyEntity.cacheIdxUser_inj.mp hk
      exact ⟨t', uv', hsub _ (mem_of_seenBy hmem)⟩
  · exact ⟨t, uv, mem_of_seenBy hv⟩

/-- What is read as the data of a ceremony has been stored by one that was started. -/
theorem Run.ceremony_started (hdata₀ : ∀ k, w₀.cache .webauthnData k = none)
    (h : Run (LoginCall.prog data pages) sem C (init w₀) P) {code : String} {wd : WebauthnData}
    (hfound : FoundData WebauthnData.decode code wd (seenBy t P.log)) :
    ∃ t' k x req id purpose l u, (∀ e ∈ l, e ∈ P.log) ∧
      Happened data pages C l (.op t' (.cachePut .webauthnData k (.bytes wd.encode)) x) ∧
      .start t' (.endpoint (.authStart req id purpose)) ∈ l ∧
      CeremonyOf data u wd (seenBy t' l) := by
  obtain ⟨b, rest, hmem, hdec⟩ := hfound
  rcases Run.found_put h (mem_of_seenBy hmem) with h₀ | ⟨t', x, hput⟩
  · rw [hdata₀] at h₀
    cases h₀
  obtain ⟨l, hsub, hl⟩ := Run.happened h hput
  obtain ⟨q, hq, hstep⟩ := hl.step t' _ _ rfl
  -- only the data of a ceremony are read back as such
  generalize hb : CacheVal.bytes b = v at hstep
  cases hstep.data _ _ rfl with
  | @login q d _ hfits hloc hcodes =>
      obtain ⟨uri, c, state, hloc⟩ := hloc
      cases hb
      rw [WebauthnData.decode_loginReq hfits (hloc ▸ length_codeLocation uri c state)] at hdec
      cases hdec
  | service hfits =>
      cases hb
      rw [WebauthnData.decode_serviceReq hfits] at hdec
      cases hdec
  | @ceremony req id purpose wd' u uv pks st hfits hread hkeys hst hjson =>
      cases hb
      have hback := WebauthnData.decode_encode hfits []
      rw [List.append_nil, hdec] at hback
      obtain rfl : wd = wd' := (Prod.mk.inj (Option.some.inj hback)).1
      obtain ⟨v, hv, hlist⟩ := hkeys
      exact ⟨t', code, x, req, id, purpose, l, u, hsub, hl, hq, hfits, hread, uv, pks, v, st, hv,
        hlist, hst, hjson⟩

/-- The release of a login leads back to the challenge of its ceremony. -/
theorem Run.released (hC : ∀ w l e, C w l e → StartedForOwner l e ∧ FinishedForOwner l e)
    (hjson : ∀ st, data.authStateFromJson (data.authStateToJson st) = some st)
    (hdata₀ : ∀ k, w₀.cache .webauthnData k = none)
    (hkeys₀ : ∀ k ls, w₀.cache .webauthn k ≠ some (.passkeys ls))
    (h : Run (LoginCall.prog data pages) sem C (init w₀) P) {d : WebauthnLoginReq}
    (hrel : ReleasesLogin t d P.log) :
    ReleasedByOwner data t d P.log := by
  obtain ⟨r, hdone, hanswer⟩ := hrel
  obtain ⟨l, hsub, hl⟩ := Run.happened h hdone
  obtain ⟨q, hq, hends⟩ := hl.ends t r rfl
  cases q with
  | other p hp =>
      simp only [LoginEnds, hanswer] at hends
      cases hends.1
  | endpoint p =>
      simp only [LoginEnds, hanswer] at hends
      obtain ⟨id, req, wd, rfl, hwd, hfinished⟩ := hends.1.finished _ rfl
      obtain ⟨hfound, st, result, u, hst, haccepted, hcred, hread, huv⟩ := hfinished
      have hgrow : ∀ v ∈ seenBy t l, v ∈ seenBy t P.log := fun v hv =>
        mem_seenBy.mpr (hsub _ (mem_of_seenBy hv))
      -- the end is asked for under the user of the login
      obtain ⟨w, hcond⟩ := hl.cond
      have hfinish := (hC _ _ _ hcond).2
      have huser : u.id = d.userId := hfinish t _ id req wd d rfl hq hfound hwd u hread
      -- and so was its start
      obtain ⟨t', k, x, req', id', purpose, l', u', hsub', hl', hq', hceremony⟩ :=
        Run.ceremony_started hdata₀ h (hfound.mono hgrow)
      obtain ⟨w', hcond'⟩ := hl'.cond
      have hstart := (hC _ _ _ hcond').1
      obtain ⟨hfits, hread', uv, pks, v, st', hv, hlist, hcreds, hstored⟩ := hceremony
      have howner : u'.id = d.userId :=
        hstart t' k wd d x req' id' purpose rfl hfits hq' hwd u' hread'
      obtain rfl : st' = st := by
        rw [hstored, hjson] at hst
        exact Option.some.inj hst
      rw [hcreds] at hcred
      obtain ⟨pk, hpk, hcredId⟩ := List.mem_map.mp hcred
      have hregistered : RegisteredTo u'.id pk.passkey.credId P.log :=
        Run.passkeys_of_user hkeys₀ h (mem_seenBy.mpr (hsub' _ (mem_of_seenBy hv))) hlist hpk
      rw [howner, hcredId] at hregistered
      exact ⟨result, ⟨⟨_, _, hsub _ (mem_of_seenBy haccepted)⟩, hregistered⟩, u, hread.mono hgrow,
        huser, huv⟩

/-- **A login is released by its user**: in every run in which each ceremony of a login is started
and finished for the user of that login. -/
theorem released_by_owner
    (hjson : ∀ st, data.authStateFromJson (data.authStateToJson st) = some st)
    (hdata₀ : ∀ k, w₀.cache .webauthnData k = none)
    (hkeys₀ : ∀ k ls, w₀.cache .webauthn k ≠ some (.passkeys ls))
    (h : Run (LoginCall.prog data pages) sem
      (fun _ l e => StartedForOwner l e ∧ FinishedForOwner l e) (init w₀) P)
    {t : ℕ} {d : WebauthnLoginReq} (hrel : ReleasesLogin t d P.log) :
    ReleasedByOwner data t d P.log :=
  Run.released (fun _ _ _ hC => hC) hjson hdata₀ hkeys₀ h hrel

end Runs

/-! ### Mallory's passkey -/

/-- Alice has a password and a passkey, and so does mallory. -/
def keyedUser (id : String) : User :=
  { sampleUser with id, email := id ++ "@localhost", webauthnUserId := some (id ++ "-uuid") }

def keyOf (id : String) : PasskeyEntity where
  userId := id
  name := "key"
  passkeyUserId := id ++ "-uuid"
  passkey := ⟨Text.asBytes id, 0⟩
  credentialId := Text.asBytes id
  registered := 0
  lastUsed := 0
  userVerified := some true

/-- The session of the login form -/
def formSession : Session where
  id := "s"
  csrfToken := "csrf"
  userId := none
  roles := none
  groups := none
  isMfa := false
  state := .init
  exp := 1000000
  lastSeen := 100
  remoteIp := none

def keyedWorld : World where
  clock := 100000
  issued := []
  db
    | .passkeys => [keyOf "alice", keyOf "mallory"]
    | _ => []
  cache
    | .sessions, "session_s" => some (.session formSession)
    | .c12hr, "client_app" => some (.client sampleClient)
    | .users, "users__alice" => some (.user (keyedUser "alice"))
    | .users, "users__alice@localhost" => some (.user (keyedUser "alice"))
    | .users, "users__mallory" => some (.user (keyedUser "mallory"))
    | _, _ => none

def formReq : HttpRequest :=
  { (default : HttpRequest) with
    sessionCookie := some "s", csrfToken := some "csrf", realIp := some "10.0.0.1" }

/-- Alice's password. -/
def aliceLogin : LoginCall :=
  .endpoint (.authorize formReq { (default : LoginRequest) with
    email := "alice@localhost", password := some "secret", clientId := "app"
    redirectUri := "https://app/callback" })

def loginCode : String := String.ofList (List.replicate 48 'l')

def assertionCode : String := String.ofList (List.replicate 48 'c')

/-- The ceremony of alice's login, for the passkeys of this user. -/
def ceremonyStart (id : String) : LoginCall :=
  .endpoint (.authStart formReq id (.login loginCode))

def ceremonyFinish (id : String) : LoginCall :=
  .endpoint (.authFinish id ⟨assertionCode, "assertion"⟩)

/-- The request does operations that are answered so. -/
def answeredMoves (t : ℕ) (cs : List Choice) : List (Move LoginCall Choice) := cs.map (.op t)

/-- Alice logs in with her password, and the ceremony is one for the passkeys of this user. -/
def keyMoves (id : String) : List (Move LoginCall Choice) :=
  .start 0 aliceLogin :: answeredMoves 0 [.ok, .time 100000, .time 100000, .ok, .time 100000, .ok,
    .ok, .ok, .ok, .rand (String.ofList (List.replicate 64 'a')), .time 100000, .ok, .ok, .ok,
    .rand loginCode, .ok] ++ .done 0 ::
  .start 1 (ceremonyStart id) :: answeredMoves 1 [.ok, .time 100000, .time 100000, .ok, .ok, .ok,
    .ok, .ok, .rand "challenge", .ok, .rand assertionCode, .ok] ++ .done 1 ::
  .start 2 (ceremonyFinish id) :: answeredMoves 2 [.ok, .ok, .ok,
    .assertion ⟨Text.asBytes id, true, 1⟩, .time 100000, .ok, .ok, .ok, .ok, .ok, .ok, .ok, .ok] ++
  [.done 2]

def aliceLoginReq : WebauthnLoginReq where
  code := loginCode
  userId := "alice"
  headerLoc := codeLocation "https://app/callback" (String.ofList (List.replicate 64 'a')) none
  headerOrigin := none

/-- The answer of request `t` is this login. -/
def releases (t : ℕ) (d : WebauthnLoginReq) (l : LoginRunLog) : Bool :=
  match Log.doneOf t l with
  | some (.ok r) => decide (r.answer = some (.authFinished (.login d)))
  | _ => false

theorem releasesLogin_of_releases {t : ℕ} {d : WebauthnLoginReq} {l : LoginRunLog}
    (h : releases t d l = true) : ReleasesLogin t d l := by
  unfold releases at h
  split at h
  · next r hr => exact ⟨r, Log.mem_of_doneOf hr, of_decide_eq_true h⟩
  · cases h

/-- The bytes are no ceremony of a login, or of one of alice's. -/
def ofAlice (b : Bytes) : Bool :=
  (WebauthnData.decode b).all fun d => match d.1.data with
    | .login d => d.userId == "alice"
    | _ => true

/-- Only alice is found, and only her ceremonies are found and stored. -/
def keepsToAlice : LoginRunEvent → Bool
  | .op _ (.cacheGet .users _) (.ok (some (.user u))) => u.id == "alice"
  | .op _ (.select .users _) (.ok rows) => rows.all fun u => u.id == "alice"
  | .op _ (.cacheGet .webauthnData _) (.ok (some (.bytes b))) => ofAlice b
  | .op _ (.cachePut .webauthnData _ (.bytes b)) _ => ofAlice b
  | _ => true

/-- The events that the conditions are about are all for alice. -/
def forAlice (l : LoginRunLog) (e : LoginRunEvent) : Bool :=
  match e with
  | .op _ (.cachePut .webauthnData _ _) _ => (e :: l).all keepsToAlice
  | .done _ _ => l.all keepsToAlice
  | _ => true

theorem forOwner_of_forAlice {l : LoginRunLog} {e : LoginRunEvent} (h : forAlice l e = true) :
    StartedForOwner l e ∧ FinishedForOwner l e := by
  have huser : l.all keepsToAlice = true → ∀ t u, HasReadUser u (seenBy t l) → u.id = "alice" := by
    intro hall
    have hall := List.all_eq_true.mp hall
    rintro t u (⟨k, hk⟩ | ⟨p, rows, hrows⟩)
    · have hget := hall _ (mem_of_seenBy hk)
      exact beq_iff_eq.mp hget
    · have hrow := hall _ (mem_of_seenBy hrows)
      exact beq_iff_eq.mp (List.all_eq_true.mp hrow u List.mem_cons_self)
  have hlogin : ∀ b wd rest d, ofAlice b = true → WebauthnData.decode b = some (wd, rest) →
      wd.data = .login d → d.userId = "alice" := by
    intro b wd rest d hb hdec hd
    rw [ofAlice, hdec, Option.all_some] at hb
    simp only [hd] at hb
    exact beq_iff_eq.mp hb
  refine ⟨?_, ?_⟩
  · rintro t k wd d x req id purpose rfl hfits - hd u hu
    have hall : (.op t (.cachePut .webauthnData k (.bytes wd.encode)) x :: l : LoginRunLog).all
        keepsToAlice = true := h
    rw [List.all_cons, Bool.and_eq_true] at hall
    have hb : ofAlice wd.encode = true := hall.1
    have hdec := WebauthnData.decode_encode hfits []
    rw [List.append_nil] at hdec
    rw [huser hall.2 t u hu, hlogin _ wd [] d hb hdec hd]
  · rintro t r id req wd d rfl - ⟨b, rest, hmem, hdec⟩ hd u hu
    have hall : l.all keepsToAlice = true := h
    have hget := List.all_eq_true.mp hall _ (mem_of_seenBy hmem)
    have hb : ofAlice b = true := hget
    rw [huser hall t u hu, hlogin b wd rest d hb hdec hd]

/-- Alice's passkey releases her login. -/
theorem released_by_owner_alice : ∃ P, Run (LoginCall.prog sampleState samplePages) sem
    (fun _ l e => StartedForOwner l e ∧ FinishedForOwner l e) (init keyedWorld) P ∧
      ReleasesLogin 2 aliceLoginReq P.log ∧ ReleasedByOwner sampleState 2 aliceLoginReq P.log := by
  obtain ⟨P, hrun, hP⟩ := exists_run_of_moves (LoginCall.prog sampleState samplePages) Op.run
    (fun _ l e => forAlice l e) keyedWorld (keyMoves "alice")
    (fun P => releases 2 aliceLoginReq P.log) (by
      -- texts evaluate faster as the bytes that they are kept in
      simp only [LoginCall.prog_def, Request.prog, postWebauthnAuthStart, authStart, postAuthorize,
        authorize, authorizeStep, awaitWebauthn, WebauthnLoginReq.save, WebauthnData.save, saveData, fits,
        WebauthnLoginReq.Fits, WebauthnAdditionalData.Fits, WebauthnData.Fits, WebauthnLoginReq.encode,
        WebauthnAdditionalData.encode, WebauthnData.encode, encStr, Text.asBytes_eq_toByteArray]
      decide +kernel) (fun _ _ _ h => forOwner_of_forAlice h)
  have hrel := releasesLogin_of_releases hP
  refine ⟨P, hrun, hrel,
    released_by_owner sampleState_authStateFromJson (fun _ => rfl) ?_ hrun hrel⟩
  intro k ls h
  cases h

/-- The only assertion that is accepted is by mallory's key, which is not one of alice's rows. -/
def keptFromAlice : LoginRunEvent → Bool
  | .op _ (.finishPasskeyAuthentication _ _) (.ok result) => result.credId == Text.asBytes "mallory"
  | .op _ (.select .passkeys _) (.ok rows) => rows.all fun pk =>
      !(pk.userId == "alice" && pk.passkey.credId == Text.asBytes "mallory")
  | _ => true

/-- Mallory's passkey releases alice's login. -/
theorem released_by_other :
    ¬ ∀ (data : AppState) (pages : LoginPages) (w₀ : World) (P : LoginRunPool) (t : ℕ)
        (d : WebauthnLoginReq),
      (∀ st, data.authStateFromJson (data.authStateToJson st) = some st) →
      (∀ k, w₀.cache .webauthnData k = none) →
      (∀ k ls, w₀.cache .webauthn k ≠ some (.passkeys ls)) →
      Run (LoginCall.prog data pages) sem (fun _ _ _ => True) (init w₀) P →
      ReleasesLogin t d P.log → ReleasedByOwner data t d P.log := by
  intro hall
  obtain ⟨P, hrun, hP⟩ := exists_run_of_moves (C := fun _ _ _ => True)
    (LoginCall.prog sampleState samplePages) Op.run (fun _ _ _ => true) keyedWorld
    (keyMoves "mallory")
    (fun P => releases 2 aliceLoginReq P.log && P.log.all keptFromAlice) (by
      simp only [LoginCall.prog_def, Request.prog, postWebauthnAuthStart, authStart, postAuthorize,
        authorize, authorizeStep, awaitWebauthn, WebauthnLoginReq.save, WebauthnData.save, saveData, fits,
        WebauthnLoginReq.Fits, WebauthnAdditionalData.Fits, WebauthnData.Fits, WebauthnLoginReq.encode,
        WebauthnAdditionalData.encode, WebauthnData.encode, encStr, Text.asBytes_eq_toByteArray]
      decide +kernel) (fun _ _ _ _ => trivial)
  obtain ⟨hrel, hkept⟩ := Bool.and_eq_true_iff.mp hP
  have hkept := List.all_eq_true.mp hkept
  obtain ⟨result, ⟨⟨cred, st, haccepted⟩, t', p, rows, pk, hrows, hpk, huser, hcred⟩, -⟩ :=
    hall sampleState samplePages keyedWorld P 2 aliceLoginReq sampleState_authStateFromJson
      (fun _ => rfl) (fun k ls h => by cases h) hrun (releasesLogin_of_releases hrel)
  have hresult : result.credId = Text.asBytes "mallory" := beq_iff_eq.mp (hkept _ haccepted)
  have hno := List.all_eq_true.mp (hkept _ hrows) pk hpk
  rw [huser, hcred, hresult] at hno
  cases hno

end Rauthy
