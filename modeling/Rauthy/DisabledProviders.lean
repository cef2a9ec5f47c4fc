/-
Rauthy/DisabledProviders.lean

Logins with providers that have been disabled, for any interleaving of the requests that start
and finish logins, of changes of providers, and of any other programs.

The flag `enabled` is read for the login page only.  `login_start` finds a provider by the id
that it is given, `login_finish` by the id in the callback, and neither looks at the flag.

Main results:
  * `enabled_logins`: if logins are started and callbacks found only while their provider is not
    disabled, and no provider is disabled in the meantime, then none logs anybody in while it is;
  * `disabled_logins`: a login that is started with a disabled provider, and one that is finished
    with a provider that has been disabled since.
-/
import Rauthy.UpstreamCallbacks

namespace Rauthy

open Prog Pool

/-! ### The requests -/

inductive ProviderReq where
  | create (payload : ProviderRequest)
  | update (id : String) (payload : ProviderRequest)
  | delete (id : String)
  | loginStart (payload : ProviderLoginRequest)
  | loginFinish (req : HttpRequest) (payload : ProviderCallbackRequest) (session : Session)
  | other (p : M ErrorResponse Unit)

def ProviderReq.prog (data : AppState) (callbackUri : String) :
    ProviderReq → M ErrorResponse Unit
  | create payload => do let _ ← AuthProvider.create data payload
  | update id payload => AuthProvider.update data id payload
  | delete id => AuthProvider.delete data id
  | loginStart payload => do let _ ← Rauthy.loginStart data callbackUri payload
  | loginFinish req payload session => do let _ ← Rauthy.loginFinish data req payload session
  | other p => p

abbrev ProviderOutcome := Except (Fault ErrorResponse) Unit

abbrev ProviderEvent := Event ProviderReq Op Op.Res ProviderOutcome

abbrev ProviderLog := Log ProviderReq Op Op.Res ProviderOutcome

abbrev ProviderPool := Pool ProviderReq Op Op.Res World (Fault ErrorResponse) Unit

/-! ### What is asked for -/

def ProviderDisabled (db : Db) (id : String) : Prop :=
  ∃ p ∈ db .authProviders, p.id = id ∧ p.enabled = false

/-- Request `t` is to finish a login. -/
def FinishesLogin (t : ℕ) (l : ProviderLog) : Prop :=
  ∃ req payload session, .start t (.loginFinish req payload session) ∈ l

/-- Request `t` has found this callback. -/
def HasCallback (t : ℕ) (slf : AuthProviderCallback) (l : ProviderLog) : Prop :=
  ∃ k, .op t (.cacheGet .authProviderCallback k) (.ok (some (.authProviderCallback slf))) ∈ l

/-- The operation creates or updates a user, or issues a code. -/
def Op.LogsIn : Op → Prop
  | .execute ss => ∃ s ∈ ss, s.table = .users
  | .cachePut .authCodes _ _ => True
  | _ => False

/-- What a step has to do with disabled providers. -/
structure EnabledLogin (w : World) (l : ProviderLog) (e : ProviderEvent) : Prop where
  /-- no login is started with success -/
  started : ∀ t payload, e = .done t (.ok ()) → .start t (.loginStart payload) ∈ l →
    ¬ ProviderDisabled w.db payload.providerId
  /-- and none that is finished logs anybody in -/
  finished : ∀ t o x, e = .op t o x → FinishesLogin t l → o.LogsIn →
    (∃ slf, HasCallback t slf l) ∧
      ∀ slf, HasCallback t slf l → ¬ ProviderDisabled w.db slf.providerId

/-- The login that is started or finished by request `t` is one with the provider `id`. -/
inductive LoginWith (t : ℕ) (id : String) (l : ProviderLog) : Prop
  | start {payload : ProviderLoginRequest} (h : .start t (.loginStart payload) ∈ l)
      (hid : payload.providerId = id)
  | finish {slf : AuthProviderCallback} (h : FinishesLogin t l) (hslf : HasCallback t slf l)
      (hid : slf.providerId = id)

/-- A login is started, and a callback found, only while the provider is not disabled; and no
statement disables a provider while a login with it is in progress. -/
structure OnlyEnabled (w : World) (l : ProviderLog) (e : ProviderEvent) : Prop where
  start : ∀ t payload, e = .start t (.loginStart payload) →
    ¬ ProviderDisabled w.db payload.providerId
  callback : ∀ t k slf, FinishesLogin t l →
    e = .op t (.cacheGet .authProviderCallback k) (.ok (some (.authProviderCallback slf))) →
    ¬ ProviderDisabled w.db slf.providerId
  kept : ∀ t ss x db, e = .op t (.execute ss) x → Commits ss w.db db →
    ∀ t' id, Log.Running t' l → LoginWith t' id l → ¬ ProviderDisabled db id

/-! ### The callback comes first -/

section Promise

variable {α : Type} {data : AppState} {tr : List (Seen Op Op.Res)}
  {payload : ProviderCallbackRequest}

/-- A callback has been found. -/
def SeenCallback (tr : List (Seen Op Op.Res)) : Prop :=
  ∃ k slf, (⟨.cacheGet .authProviderCallback k, .ok (some (.authProviderCallback slf))⟩ :
    Seen Op Op.Res) ∈ tr

/-- Nobody is logged in before a callback has been found. -/
def AfterCallback (tr : List (Seen Op Op.Res)) (s : Seen Op Op.Res) : Prop :=
  s.1.LogsIn → SeenCallback tr

theorem sees_afterCallback (p : M ErrorResponse α) (h : SeenCallback tr) :
    Sees Op.Possible AfterCallback p (fun _ _ => True) tr := by
  induction p generalizing tr with
  | ret a => exact sees_ret trivial
  | fail e => exact sees_fail
  | call o k ih =>
      refine sees_call (fun x _ _ => h) fun x _ => ih x ?_
      obtain ⟨k, slf, hmem⟩ := h
      exact ⟨k, slf, List.mem_cons_of_mem _ hmem⟩

theorem sees_checkCallback {req : HttpRequest} :
    Sees Op.Possible AfterCallback (checkCallback data req payload)
      (fun _ tr' => SeenCallback tr') tr := by
  have hreject : ∀ (id : String) (e : ErrorResponse) tr', Sees Op.Possible AfterCallback
      (do AuthProviderCallback.delete id; fail (.err e) : M ErrorResponse AuthProviderCallback)
      (fun _ tr' => SeenCallback tr') tr' := by
    intro id e tr'
    exact sees_bind (sees_cacheDel fun _ h => False.elim h) fun _ _ _ _ => sees_fail
  refine sees_bind sees_okOr fun cookie tr₁ _ _ => ?_
  refine sees_bind sees_answer fun id tr₂ _ _ => ?_
  split
  · exact hreject _ _ _
  have hfind : Sees Op.Possible AfterCallback (AuthProviderCallback.find id)
      (fun _ tr' => SeenCallback tr') tr₂ := by
    refine sees_bind (sees_cacheGet fun _ h => False.elim h) fun res tr₃ _ hres => ?_
    refine sees_mono sees_okOr fun slf tr₄ _ ⟨htr, hslf⟩ => ?_
    obtain ⟨y, htr₃, ⟨rfl, -⟩ | ⟨v, a, rfl, rfl, hv⟩⟩ := hres
    · cases hslf
    · rw [htr, htr₃]
      cases v <;> cases hv
      exact ⟨_, _, List.mem_cons_self⟩
  refine sees_bind hfind fun slf tr₃ _ hslf => ?_
  split
  · exact hreject _ _ _
  · split
    · exact hreject _ _ _
    · exact sees_ret hslf

theorem sees_loginFinish_callback {req : HttpRequest} {session : Session} :
    Sees Op.Possible AfterCallback (loginFinish data req payload session)
      (fun _ _ => True) tr :=
  sees_bind sees_checkCallback fun _ _ _ h => sees_afterCallback _ h

end Promise

/-! ### Runs -/

section Runs

variable {data : AppState} {callbackUri : String} {w₀ : World} {P P' : ProviderPool}
  {C : World → ProviderLog → ProviderEvent → Prop}
  {t : ℕ} {id : String}

/-- Each request does what it promises: the end of a login finds its callback first. -/
def KeepsPromise (q : ProviderReq) (tr : List (Seen Op Op.Res)) (s : Seen Op Op.Res) : Prop :=
  (∃ req payload session, q = .loginFinish req payload session) → AfterCallback tr s

theorem keepsPromise (q : ProviderReq) :
    Sees Op.Possible (KeepsPromise q) (q.prog data callbackUri) (fun _ _ => True) [] := by
  have hfree : ∀ {p : M ErrorResponse Unit},
      (∀ req payload session, q ≠ .loginFinish req payload session) →
      Sees Op.Possible (KeepsPromise q) p (fun _ _ => True) [] := by
    intro p hq
    refine sees_of_within (within_of_forall (φ := fun _ => True) (fun _ => trivial) p) ?_
    rintro o - tr x - ⟨req, payload, session, he⟩
    exact absurd he (hq req payload session)
  cases q with
  | loginFinish req payload session =>
      refine seenWp_weaken ?_ fun tr v h _ => h
      exact sees_bind sees_loginFinish_callback fun _ _ _ _ => sees_ret trivial
  | _ => exact hfree (fun _ _ _ he => by cases he)

/-- What a login that is finished does, it does after it has found its callback. -/
theorem callback_first (h : Run (ProviderReq.prog data callbackUri) sem C (init w₀) P) {o : Op}
    {x : o.Res} (hs : Step (ProviderReq.prog data callbackUri) sem P (.op t o x) P')
    (hC : C P.world P.log (.op t o x)) (ht : FinishesLogin t P.log) (ho : o.LogsIn) :
    ∃ slf, HasCallback t slf P.log := by
  have hpromises := Run.promises (A := fun _ => Op.Possible) (G := KeepsPromise)
    (F := fun _ _ _ => True) (fun q => wp_mono (keepsPromise q) fun _ _ _ => trivial)
    (fun w l t q o x w' _ hx _ => ⟨w, w', hx⟩) (h.step hs hC)
  have hlog : P'.log = .op t o x :: P.log := by
    cases hs
    rfl
  rw [hlog] at hpromises
  obtain ⟨⟨hop, -⟩, -⟩ := hpromises
  obtain ⟨q, hq, hG⟩ := hop t o x rfl
  obtain ⟨req, payload, session, hq'⟩ := ht
  obtain ⟨k, slf, hmem⟩ := hG ⟨req, payload, session, h.start_unique hq hq'⟩ ho
  exact ⟨slf, k, mem_of_seenBy hmem⟩

theorem LoginWith.of_cons {l : ProviderLog} {e : ProviderEvent} (h : LoginWith t id (e :: l)) :
    LoginWith t id l ∨
      (∃ payload, e = .start t (.loginStart payload) ∧ payload.providerId = id) ∨
      (∃ req payload session, e = .start t (.loginFinish req payload session) ∧
        ∃ slf, HasCallback t slf l) ∨
      ∃ k slf, e = .op t (.cacheGet .authProviderCallback k)
        (.ok (some (.authProviderCallback slf))) ∧ slf.providerId = id ∧ FinishesLogin t l := by
  rcases h with ⟨hstart, hid⟩ | ⟨⟨req, payload, session, hfinish⟩, ⟨k, hslf⟩, hid⟩
  · rcases List.mem_cons.mp hstart with he | hstart
    · exact .inr (.inl ⟨_, he.symm, hid⟩)
    · exact .inl (.start hstart hid)
  · rcases List.mem_cons.mp hfinish with he | hfinish
    · rw [← he] at hslf
      exact .inr (.inr (.inl ⟨_, _, _, he.symm, _, k, (List.mem_cons.mp hslf).resolve_left (by simp)⟩))
    · rcases List.mem_cons.mp hslf with he | hslf
      · exact .inr (.inr (.inr ⟨k, _, he.symm, hid, req, payload, session, hfinish⟩))
      · exact .inl (.finish ⟨req, payload, session, hfinish⟩ ⟨k, hslf⟩ hid)

/-- All operations but writes leave the providers as they are. -/
theorem sem_authProviders {o : Op} {w w' : World} {x : o.Res} (h : sem o w x w')
    (ho : ∀ ss, o ≠ .execute ss) : w'.db .authProviders = w.db .authProviders :=
  congrFun (sem_db h ho) _

theorem LoginWith.running {l : ProviderLog} {e : ProviderEvent} (h : LoginWith t id l)
    (ht : Log.Running t (e :: l)) : Log.Running t l := by
  refine ⟨?_, fun a ha => ht.2 a (List.mem_cons_of_mem _ ha)⟩
  rcases h with ⟨hstart, -⟩ | ⟨⟨_, _, _, hstart⟩, -, -⟩
  · exact ⟨_, hstart⟩
  · exact ⟨_, hstart⟩

/-- **No provider of a login in progress is disabled.** -/
theorem in_progress_enabled
    (h : Run (ProviderReq.prog data callbackUri) sem OnlyEnabled (init w₀) P)
    (ht : Log.Running t P.log) (hlogin : LoginWith t id P.log) :
    ¬ ProviderDisabled P.world.db id := by
  induction h generalizing t id with
  | refl =>
      obtain ⟨⟨q, hq⟩, -⟩ := ht
      cases hq
  | @step P P' e hrun hs hC ih =>
      cases hs with
      | @start t₁ q hfresh =>
          rcases hlogin.of_cons with hold | ⟨payload, he, hid⟩ | ⟨_, _, _, he, slf, k, hslf⟩ |
            ⟨k, slf, he, -⟩
          · exact ih (hold.running ht) hold
          · rw [← hid]
            exact hC.start t payload he
          · cases he
            exact absurd rfl (hfresh _ hslf)
          · cases he
      | @op t₁ o rest x w' hthread hx =>
          rcases hlogin.of_cons with hold | ⟨_, he, -⟩ | ⟨_, _, _, he, -⟩ | ⟨k, slf, he, hid, hfinish⟩
          · have henabled := ih (hold.running ht) hold
            by_cases hwrite : ∃ ss, o = .execute ss
            · obtain ⟨ss, rfl⟩ := hwrite
              rcases sem_execute.mp hx with ⟨e, -, rfl⟩ | ⟨db, hdb, rfl⟩
              · exact henabled
              · exact hC.kept t₁ ss x db rfl hdb t id (hold.running ht) hold
            · have hdb := sem_authProviders hx fun ss hss => hwrite ⟨ss, hss⟩
              rintro ⟨p, hp, hdisabled⟩
              exact henabled ⟨p, hdb ▸ hp, hdisabled⟩
          · cases he
          · cases he
          · -- the callback has just been found
            cases he
            have hdb := sem_authProviders hx fun ss hss => by cases hss
            have henabled := hC.callback t k slf hfinish rfl
            rintro ⟨p, hp, hpid, hdisabled⟩
            exact henabled ⟨p, hdb ▸ hp, hpid.trans hid.symm, hdisabled⟩
      | ret hthread =>
          rcases hlogin.of_cons with hold | ⟨_, he, -⟩ | ⟨_, _, _, he, -⟩ | ⟨_, _, he, -⟩
          · exact ih (hold.running ht) hold
          all_goals cases he
      | fail hthread =>
          rcases hlogin.of_cons with hold | ⟨_, he, -⟩ | ⟨_, _, _, he, -⟩ | ⟨_, _, he, -⟩
          · exact ih (hold.running ht) hold
          all_goals cases he

/-- **No login with a disabled provider**, in any step of any run in which logins are started,
and their callbacks found, only while their provider is not disabled, and no provider is disabled
during a login. -/
theorem enabled_logins {e : ProviderEvent}
    (h : Run (ProviderReq.prog data callbackUri) sem OnlyEnabled (init w₀) P)
    (hs : Step (ProviderReq.prog data callbackUri) sem P e P') (hC : OnlyEnabled P.world P.log e) :
    EnabledLogin P.world P.log e := by
  have hcons := h.consistent (.init w₀)
  constructor
  · rintro t payload rfl hstart
    have ht : Log.Running t P.log := by
      cases hs with
      | ret ht => exact (hcons.running t).mpr (by simp [ht])
    exact in_progress_enabled h ht (.start hstart rfl)
  · rintro t o x rfl hfinish ho
    have ht : Log.Running t P.log := by
      cases hs with
      | op ht hx => exact (hcons.running t).mpr (by simp [ht])
    exact ⟨callback_first h hs hC hfinish ho,
      fun slf hslf => in_progress_enabled h ht (.finish hfinish hslf rfl)⟩

end Runs

/-! ### A provider that has been disabled -/

def providerWorld (p : AuthProvider) : World where
  clock := 0
  issued := []
  db
    | .authProviders => [p]
    | .clients => [{ (default : Client) with id := "client" }]
    | _ => []
  cache _ _ := none

def providerProg : ProviderReq → M ErrorResponse Unit :=
  ProviderReq.prog sampleState "https://localhost/auth/v1/providers/callback"

def providerStart : ProviderReq :=
  .loginStart { (default : ProviderLoginRequest) with
    clientId := "client", providerId := "provider", pkceChallenge := "verifier" }

def providerFinish : ProviderReq :=
  .loginFinish { (default : HttpRequest) with upstreamCallbackCookie := some loginId }
    { state := loginId, xsrfToken := "xxxxxxxxxxxxxxxxxxxxxxxxxxxxxxxx", code := "code",
      pkceVerifier := "verifier" } default

def disableProvider : ProviderReq :=
  .update "provider" { (default : ProviderRequest) with enabled := false }

/-- Request 0 starts a login, up to its return. -/
def providerStartMoves : List (Move ProviderReq Choice) :=
  .start 0 providerStart ::
    [.ok, .ok, .ok, .ok, .ok, .ok, .rand loginId, .rand "xxxxxxxxxxxxxxxxxxxxxxxxxxxxxxxx",
      .ok].map (.op 0)

/-- Request 1 disables the provider. -/
def disableProviderMoves : List (Move ProviderReq Choice) :=
  .start 1 disableProvider :: (List.replicate 9 Choice.ok).map (.op 1) ++ [.done 1]

/-- Request 2 finishes the login, up to the code that it issues: alice is new. -/
def providerFinishMoves : List (Move ProviderReq Choice) :=
  .start 2 providerFinish ::
    [.ok, .ok, .claims sampleClaims, .ok, .ok, .ok, .time 100000,
      .rand (String.ofList (List.replicate 24 'b')), .time 100000, .ok, .ok, .ok, .ok, .ok, .ok, .ok,
      .ok, .ok, .rand (String.ofList (List.replicate 64 'c')), .time 100000].map (.op 2)

/-- Request `t` is about to return, and was to start a login with the provider. -/
def returnsStarted (t : ℕ) (P : ProviderPool) : Bool :=
  (match P.threads t with
    | some (.ret _) => true
    | _ => false) &&
  match Log.startOf t P.log with
  | some (.loginStart payload) => payload.providerId == "provider"
  | _ => false

/-- Request `t` is about to issue a code, and has found a callback of the provider. -/
def issuesCode (t : ℕ) (P : ProviderPool) : Bool :=
  (match P.threads t with
    | some (.call (.cachePut .authCodes _ _) _) => true
    | _ => false) &&
  ((match Log.startOf t P.log with
    | some (.loginFinish _ _ _) => true
    | _ => false) &&
  P.log.any fun
    | .op t' (.cacheGet .authProviderCallback _) (.ok (some (.authProviderCallback slf))) =>
        t' == t && slf.providerId == "provider"
    | _ => false)

def providerOff (db : Db) : Bool :=
  (db .authProviders).any fun p => p.id == "provider" && !p.enabled

theorem disabled_of_providerOff {db : Db} (h : providerOff db = true) :
    ProviderDisabled db "provider" := by
  obtain ⟨p, hp, hoff⟩ := List.any_eq_true.mp h
  rw [Bool.and_eq_true, beq_iff_eq, Bool.not_eq_true'] at hoff
  exact ⟨p, hp, hoff⟩

theorem of_returnsStarted {t : ℕ} {P : ProviderPool} (h : returnsStarted t P = true) :
    ∃ P' payload, Step providerProg sem P (.done t (.ok ())) P' ∧
      .start t (.loginStart payload) ∈ P.log ∧ payload.providerId = "provider" := by
  rw [returnsStarted, Bool.and_eq_true] at h
  obtain ⟨hret, hstart⟩ := h
  split at hret
  · next hthread =>
      split at hstart
      · next payload hpayload =>
          exact ⟨_, payload, .ret hthread, Log.mem_of_startOf hpayload, beq_iff_eq.mp hstart⟩
      · cases hstart
  · cases hret

theorem of_issuesCode {t : ℕ} {P : ProviderPool} (h : issuesCode t P = true) :
    ∃ P' o x slf, Step providerProg sem P (.op t o x) P' ∧ o.LogsIn ∧ FinishesLogin t P.log ∧
      HasCallback t slf P.log ∧ slf.providerId = "provider" ∧ ∀ ss, o ≠ .execute ss := by
  rw [issuesCode, Bool.and_eq_true, Bool.and_eq_true] at h
  obtain ⟨hput, hstart, hfound⟩ := h
  have hfinish : FinishesLogin t P.log := by
    split at hstart
    · next hreq => exact ⟨_, _, _, Log.mem_of_startOf hreq⟩
    · cases hstart
  obtain ⟨slf, hslf, hid⟩ : ∃ slf, HasCallback t slf P.log ∧ slf.providerId = "provider" := by
    obtain ⟨e, he, hmatch⟩ := List.any_eq_true.mp hfound
    split at hmatch
    · next t' k slf =>
        rw [Bool.and_eq_true, beq_iff_eq, beq_iff_eq] at hmatch
        obtain ⟨rfl, hid⟩ := hmatch
        exact ⟨slf, ⟨k, he⟩, hid⟩
    · cases hmatch
  split at hput
  · next k v rest hthread =>
      have hsem : sem (.cachePut .authCodes k v) P.world (.ok ()) (P.world.put .authCodes k v) :=
        sem_cachePut.mpr (.inl ⟨rfl, rfl⟩)
      exact ⟨_, _, _, slf, .op hthread hsem, trivial, hfinish, hslf, hid, fun _ he => by cases he⟩
  · cases hput

/-- All providers are enabled, and stay so. -/
def allEnabled (w : World) (_ : ProviderLog) (e : ProviderEvent) : Bool :=
  (w.db .authProviders).all AuthProvider.enabled &&
    match e with
    | .op _ (.execute ss) _ =>
        match applyAll ss w.db with
        | some db => (db .authProviders).all AuthProvider.enabled
        | none => true
    | _ => true

theorem not_disabled_of_all {db : Db} {id : String}
    (h : (db .authProviders).all AuthProvider.enabled = true) : ¬ ProviderDisabled db id := by
  rintro ⟨p, hp, -, hoff⟩
  have hon := List.all_eq_true.mp h p hp
  rw [hoff] at hon
  cases hon

theorem onlyEnabled_of_allEnabled {w : World} {l : ProviderLog} {e : ProviderEvent}
    (h : allEnabled w l e = true) : OnlyEnabled w l e := by
  unfold allEnabled at h
  rw [Bool.and_eq_true] at h
  obtain ⟨hall, hwrite⟩ := h
  refine ⟨fun _ _ _ => not_disabled_of_all hall, fun _ _ _ _ _ => not_disabled_of_all hall, ?_⟩
  rintro t ss x db rfl hdb t' id - -
  simp only [hdb.applied] at hwrite
  exact not_disabled_of_all hwrite

theorem enabled_logins_sample : ∃ P P' t o x, Run providerProg sem OnlyEnabled
      (init (providerWorld sampleProvider)) P ∧
    Step providerProg sem P (.op t o x) P' ∧ FinishesLogin t P.log ∧ o.LogsIn ∧
    EnabledLogin P.world P.log (.op t o x) := by
  obtain ⟨P, hrun, hP⟩ := exists_run_of_moves (C := OnlyEnabled) providerProg Op.run allEnabled
    (providerWorld sampleProvider) (providerStartMoves ++ [.done 0] ++ providerFinishMoves)
    (fun P => issuesCode 2 P && (P.world.db .authProviders).all AuthProvider.enabled)
    (by decide +kernel) (fun _ _ _ h => onlyEnabled_of_allEnabled h)
  rw [Bool.and_eq_true] at hP
  obtain ⟨hissues, hall⟩ := hP
  obtain ⟨P', o, x, slf, hs, ho, hfinish, -, -, hwrite⟩ := of_issuesCode hissues
  have hC : OnlyEnabled P.world P.log (.op 2 o x) := by
    refine ⟨fun _ _ _ => not_disabled_of_all hall, fun _ _ _ _ _ => not_disabled_of_all hall, ?_⟩
    rintro t ss x' db he
    cases he
    exact absurd rfl (hwrite ss)
  exact ⟨P, P', 2, o, x, hrun, hs, hfinish, ho, enabled_logins hrun hs hC⟩

/-- The disabled provider does not keep anybody from logging in: a login with it is started, and
one that was started before is finished. -/
theorem disabled_logins :
    (∃ P P' e, Run providerProg sem (fun _ _ _ => True)
        (init (providerWorld { sampleProvider with enabled := false })) P ∧
      Step providerProg sem P e P' ∧ ¬ EnabledLogin P.world P.log e) ∧
    ∃ P P' e, Run providerProg sem (fun _ _ _ => True) (init (providerWorld sampleProvider)) P ∧
      Step providerProg sem P e P' ∧ ¬ EnabledLogin P.world P.log e := by
  constructor
  · obtain ⟨P, hrun, hP⟩ := exists_run_of_moves (C := fun _ _ _ => True) providerProg Op.run
      (fun _ _ _ => true) (providerWorld { sampleProvider with enabled := false })
      providerStartMoves (fun P => returnsStarted 0 P && providerOff P.world.db)
      (by decide +kernel) (fun _ _ _ _ => trivial)
    rw [Bool.and_eq_true] at hP
    obtain ⟨P', payload, hs, hstart, hid⟩ := of_returnsStarted hP.1
    refine ⟨P, P', _, hrun, hs, fun h => h.started 0 payload rfl hstart ?_⟩
    rw [hid]
    exact disabled_of_providerOff hP.2
  · obtain ⟨P, hrun, hP⟩ := exists_run_of_moves (C := fun _ _ _ => True) providerProg Op.run
      (fun _ _ _ => true) (providerWorld sampleProvider)
      (providerStartMoves ++ [.done 0] ++ disableProviderMoves ++ providerFinishMoves)
      (fun P => issuesCode 2 P && providerOff P.world.db)
      (by decide +kernel) (fun _ _ _ _ => trivial)
    rw [Bool.and_eq_true] at hP
    obtain ⟨P', o, x, slf, hs, ho, hfinish, hslf, hid, -⟩ := of_issuesCode hP.1
    refine ⟨P, P', _, hrun, hs, fun h => (h.finished 2 o x rfl hfinish ho).2 slf hslf ?_⟩
    rw [hid]
    exact disabled_of_providerOff hP.2

end Rauthy
