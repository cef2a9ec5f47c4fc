/-
Rauthy/UpstreamCallbacks.lean

The callback of a login with an upstream provider.  It is stored under a random name when
the login is started, and the encrypted cookie of the client names it when the login is
finished.  A finish that fails one of the checks deletes it.  Nothing else does: not one
of the exits after the checks, and not the success.

Main results:
  * `callback_removed`: in every interleaving, a callback whose checks all fail is gone
    from the return of the first finish that names it;
  * `callback_used_twice`: two finishes that pass the checks, and it is still there.
-/
import Rauthy.CacheTickets
import Rauthy.Emails

namespace Rauthy

open Prog Pool

/-! ### The requests -/

/-- The requests that start and finish logins with a provider, and any others that store no
callback. -/
inductive UpstreamReq where
  | start (payload : ProviderLoginRequest)
  | finish (req : HttpRequest) (payload : ProviderCallbackRequest) (session : Session)
  | other (p : M ErrorResponse Unit) (h : PutsNone [.authProviderCallback] p)

/-- The callback that a cookie names. -/
def callbackNamed (data : AppState) (req : HttpRequest) : Option String :=
  req.upstreamCallbackCookie.bind fun cookie => (data.decodeCallbackCookie cookie).toOption

namespace UpstreamReq

def prog (data : AppState) (callbackUri : String) : UpstreamReq → M ErrorResponse Unit
  | start payload => do let _ ← loginStart data callbackUri payload
  | finish req payload session => do let _ ← loginFinish data req payload session
  | other p _ => p

/-- The request is to finish the login of the callback `k`. -/
def Identifies (data : AppState) (q : UpstreamReq) (k : String) : Prop :=
  ∃ req payload session, q = finish req payload session ∧ callbackNamed data req = some k

/-- What the request presents is what the callback asks for. -/
def Meets (data : AppState) (q : UpstreamReq) (slf : AuthProviderCallback) : Prop :=
  ∃ req payload session, q = finish req payload session ∧ slf.xsrfToken = payload.xsrfToken ∧
    slf.pkceChallenge = base64UrlEncode data (data.sha256 (Text.asBytes payload.pkceVerifier))

end UpstreamReq

abbrev UpstreamOutcome := Except (Fault ErrorResponse) Unit

abbrev UpstreamEvent := Event UpstreamReq Op Op.Res UpstreamOutcome

abbrev UpstreamLog := Log UpstreamReq Op Op.Res UpstreamOutcome

/-- The lookup of the callback `k` has answered with it. -/
def FoundCallback (o : Op) (x : o.Res) (k : String) (slf : AuthProviderCallback) : Prop :=
  (⟨o, x⟩ : Seen Op Op.Res) = ⟨.cacheGet .authProviderCallback k, .ok (some (.authProviderCallback slf))⟩

/-- The request has found the callback, which is looked up after the check of the state only, and
gets past the other checks. -/
def PassedChecks (data : AppState) (t : ℕ) (k : String) (l : UpstreamLog) : Prop :=
  ∃ q o x slf, .start t q ∈ l ∧ .op t o x ∈ l ∧ q.Identifies data k ∧ FoundCallback o x k slf ∧
    q.Meets data slf

/-- What is asked of the callback `k`: one request at most gets past the checks, and it is gone
with the return of a request that identifies it. -/
structure CallbackOnce (data : AppState) (k : String) (w₀ w : World) (l : UpstreamLog) : Prop where
  once : ∀ t t', PassedChecks data t k l → PassedChecks data t' k l → t = t'
  gone : ∀ t q r l₂ l₁, l = l₂ ++ .start t q :: l₁ → q.Identifies data k →
    (cacheTickets .authProviderCallback).Known w₀ k l₁ → .done t r ∈ l →
    w.cache .authProviderCallback k = none

/-- The cache answers for the callback `k` without an error, and no request that finds it meets
what it asks for. -/
structure ChecksFail (data : AppState) (k : String) (_ : World) (l : UpstreamLog)
    (e : UpstreamEvent) : Prop where
  found : ∀ t x, e = .op t (.cacheGet .authProviderCallback k) x → ∃ v, x = .ok v
  deleted : ∀ t x, e = .op t (.cacheDel .authProviderCallback k) x → x = .ok ()
  fails : ∀ t q o x slf, e = .op t o x → .start t q ∈ l → FoundCallback o x k slf →
    ¬ q.Meets data slf

/-- Each callback has the name that it is stored under. -/
def CallbacksNamed (w : World) : Prop :=
  ∀ k v, w.cache .authProviderCallback k = some v →
    ∃ slf, v = .authProviderCallback slf ∧ slf.callbackId = k

/-- The callbacks are stored under names that were drawn for them. -/
structure CallbacksOk (w : World) : Prop where
  issued : ∀ k, w.cache .authProviderCallback k ≠ none → k ∈ w.issued
  named : CallbacksNamed w

/-! ### The end of a login, with any promise -/

section LoginFinish

variable {data : AppState} {G : List (Seen Op Op.Res) → Seen Op Op.Res → Prop}
  {tr : List (Seen Op Op.Res)}

theorem authProviderFind_touches (id : String) :
    Touches [] [(.c12hr, .authProvider)] (AuthProvider.find id) :=
  touches_cached (touches_fetchOne _ _) (by simp [CacheVal.slot])

theorem forceMfaSession_touches (force : Bool) (user : User) (mfa : ProviderMfaLogin)
    (session : Session) :
    Touches [.sessions] [(.sessions, .session)] (forceMfaSession force user mfa session) := by
  unfold forceMfaSession
  split
  · exact touches_bind (touches_throwIf _ _) fun _ => session.setMfa_touches true
  · exact touches_ret _

/-- All that `login_finish` stores in the caches of tickets, it stores in `awaitWebauthn`. -/
theorem sees_loginFinish (hG : ∀ o : Op, o.PutsNone ticketCaches → ∀ tr x, G tr ⟨o, x⟩)
    (hawait : ∀ user session hashed loc origin tr, Sees Op.Possible G
      (awaitWebauthn data user session hashed loc origin) (fun _ _ => True) tr)
    {req : HttpRequest} {payload : ProviderCallbackRequest} {session : Session} :
    Sees Op.Possible G (loginFinish data req payload session) (fun _ _ => True) tr := by
  have haside : ∀ {β : Type} {p : M ErrorResponse β} {ts : List Table}
      {sl : List (CacheName × Slot)} {tr : List (Seen Op Op.Res)}, Touches ts sl p →
      (∀ c ∈ ticketCaches, ∀ s, (c, s) ∉ sl) → Sees Op.Possible G p (fun _ _ => True) tr :=
    fun hp hsl => sees_putsNone (putsNone_of_touches hp hsl) hG
  have hpure : ∀ {β : Type} {p : M ErrorResponse β} {tr : List (Seen Op Op.Res)}, Touches [] [] p →
      Sees Op.Possible G p (fun _ _ => True) tr := fun hp => haside hp (by simp)
  refine sees_bind (hpure (checkCallback_touches data req payload)) fun slf _ _ _ => ?_
  refine sees_bind (haside (authProviderFind_touches _) (by simp [ticketCaches]))
    fun provider _ _ _ => ?_
  have hexchange : Touches [] [] (call (.exchangeUpstreamCode provider payload.code) answer :
      M ErrorResponse AuthProviderIdClaims) := ⟨trivial, fun x => touches_answer x⟩
  refine sees_bind (hpure hexchange) fun claims _ _ _ => ?_
  refine sees_bind (haside (validateUpdateUser_touches _) (by simp [loginSlots, ticketCaches]))
    fun res _ _ _ => ?_
  obtain ⟨user, mfa⟩ := res
  refine sees_bind (hpure (User.checkEnabled_touches _)) fun _ _ _ _ => ?_
  refine sees_bind (hpure (User.checkExpired_touches _)) fun _ _ _ _ => ?_
  split
  · exact sees_ret trivial
  -- the account has not been linked only: the login goes on with a code
  refine sees_bind (haside (Client.findMaybeEphemeral_touches data _) (by simp [ticketCaches]))
    fun client _ _ _ => ?_
  refine sees_bind (haside (forceMfaSession_touches _ _ _ _) (by simp [ticketCaches]))
    fun session _ _ _ => ?_
  refine sees_bind (hpure (touches_answer _)) fun _ _ _ _ => ?_
  refine sees_bind (hpure (touches_answer _)) fun _ _ _ _ => ?_
  refine sees_bind (hpure (touches_answer _)) fun origin _ _ _ => ?_
  refine sees_bind (hpure (AuthCode.new_touches ..)) fun code _ _ _ => ?_
  have hsave : Touches [] [(.authCodes, .authCode)] code.save :=
    touches_cachePut (by simp [CacheVal.slot]) _
  refine sees_bind (haside hsave (by simp [ticketCaches])) fun _ _ _ _ => ?_
  split
  · exact hawait _ _ _ _ _ _
  · exact sees_ret trivial

end LoginFinish

/-! ### What each request promises -/

/-- What is stored as a callback names itself. -/
def StoresNamed (o : Op) : Prop :=
  ∀ k v, o = .cachePut .authProviderCallback k v → ∃ slf, v = .authProviderCallback slf ∧
    slf.callbackId = k

structure CallbackStep (tr : List (Seen Op Op.Res)) (s : Seen Op Op.Res) : Prop where
  once : OnceIn [.authProviderCallback] tr s
  named : StoresNamed s.1

theorem Op.PutsNone.storesNamed {o : Op} (h : o.PutsNone [.authProviderCallback]) :
    StoresNamed o := by
  rintro k v rfl
  exact absurd (List.mem_singleton_self _) h

theorem Op.PutsNone.callbackStep {o : Op} (h : o.PutsNone [.authProviderCallback])
    (tr : List (Seen Op Op.Res)) (x : o.Res) : CallbackStep tr ⟨o, x⟩ := ⟨h.onceIn x, h.storesNamed⟩

section Promises

variable {α ε : Type} {data : AppState} {tr : List (Seen Op Op.Res)}

theorem allows_callbackStep (o : Op) (ho : o.PutsNone ticketCaches) (tr : List (Seen Op Op.Res))
    (x : o.Res) : CallbackStep tr ⟨o, x⟩ :=
  (ho.subset (by simp [ticketCaches])).callbackStep tr x

theorem sees_noCallback {p : Prog Op Op.Res ε α} (hp : PutsNone [.authProviderCallback] p) :
    Sees Op.Possible CallbackStep p (fun _ _ => True) tr :=
  sees_putsNone hp fun _ ho tr x => ho.callbackStep tr x

/-- The callback is stored under the name that was drawn for it, once. -/
theorem sees_loginStart (callbackUri : String) (payload : ProviderLoginRequest) :
    Sees Op.Possible CallbackStep (loginStart data callbackUri payload) (fun _ _ => True) tr := by
  have hdraw : ∀ (tr : List (Seen Op Op.Res)) (s : String), CallbackStep tr ⟨.getRand 32, s⟩ :=
    fun tr s => Op.PutsNone.callbackStep (o := .getRand 32) trivial tr s
  have hclient : PutsNone [.authProviderCallback] (Client.find payload.clientId) :=
    putsNone_of_touches (Client.find_touches _) (by simp)
  refine sees_bind (sees_noCallback (putsNone_of_touches (authProviderFind_touches _) (by simp)))
    fun provider _ _ _ => ?_
  refine sees_bind (sees_noCallback hclient) fun client _ _ _ => ?_
  refine sees_bind (sees_getRand (hdraw _)) fun callbackId tr₁ _ h₁ => ?_
  refine sees_bind (sees_getRand (hdraw _)) fun xsrfToken tr₂ _ h₂ => ?_
  refine sees_bind sees_answer fun idEnc tr₃ _ h₃ => ?_
  refine sees_bind (sees_cachePut fun x => ⟨?_, ?_⟩) fun _ _ _ _ => sees_ret trivial
  · -- between the drawing and the storing, only the XSRF token has been drawn
    rw [h₃.1, h₂, h₁]
    rintro c - k ⟨v, hv⟩
    cases hv
    refine ⟨[⟨.getRand 32, xsrfToken⟩], ⟨.getRand 32, callbackId⟩, _, rfl, .getRand 32 callbackId, ?_⟩
    rintro s hs ⟨v, hv⟩
    rcases List.mem_cons.mp hs with rfl | hs
    · cases hv
    · rw [List.mem_singleton.mp hs] at hv
      cases hv
  · rintro k v ⟨⟩
    exact ⟨_, rfl, rfl⟩

theorem sees_upstreamReq (callbackUri : String) (q : UpstreamReq) :
    Sees Op.Possible CallbackStep (q.prog data callbackUri) (fun _ _ => True) [] := by
  cases q with
  | start payload => exact sees_bind (sees_loginStart _ _) fun _ _ _ _ => sees_ret trivial
  | finish req payload session =>
      have hlogin : ∀ d : WebauthnLoginReq, Touches [] [(.webauthnData, .bytes)] d.save := fun d =>
        touches_bind (touches_throwIf _ _) fun _ => touches_cachePut (by simp [CacheVal.slot]) _
      refine sees_bind (sees_loginFinish allows_callbackStep fun user session hashed loc origin tr => ?_)
        fun _ _ _ _ => sees_ret trivial
      exact sees_noCallback (putsNone_bind (putsNone_pure (touches_getRand 48)) fun _ =>
        putsNone_bind (putsNone_of_touches (hlogin _) (by simp)) fun _ => trivial)
  | other p h => exact sees_noCallback h

end Promises

/-! ### The end of a request that fails the checks -/

/-- What the cache of the callbacks can answer a request with, if the checks of `k` fail. -/
structure AnsweredOff (data : AppState) (k : String) (q : UpstreamReq) (o : Op) (x : o.Res) :
    Prop where
  found : ∀ x', (⟨o, x⟩ : Seen Op Op.Res) = ⟨.cacheGet .authProviderCallback k, x'⟩ →
    x' = .ok none ∨ ∃ slf, x' = .ok (some (.authProviderCallback slf)) ∧ slf.callbackId = k ∧
      ¬ q.Meets data slf
  deleted : ∀ x', (⟨o, x⟩ : Seen Op Op.Res) = ⟨.cacheDel .authProviderCallback k, x'⟩ → x' = .ok ()

/-- The request has ended with an error, after it has taken the callback. -/
def TakenAway (k : String) {β : Type} (r : Except (Fault ErrorResponse) β)
    (tr : List (Seen Op Op.Res)) : Prop :=
  (∀ b, r ≠ .ok b) ∧ ∃ s ∈ tr, (cacheTickets .authProviderCallback).Takes s.1 s.2 k

section Ends

variable {data : AppState} {k : String} {req : HttpRequest} {payload : ProviderCallbackRequest}
  {session : Session} {tr : List (Seen Op Op.Res)}

/-- A failed check: the callback is deleted, and then the request fails. -/
theorem seen_deleted {q : UpstreamReq} (e : Fault ErrorResponse) :
    seenWp (AnsweredOff data k q) (fun _ _ => True)
      (do AuthProviderCallback.delete k; fail e : M ErrorResponse AuthProviderCallback)
      (TakenAway k) tr := by
  rintro _ rfl - x _ ⟨hA, rfl⟩
  refine ⟨trivial, ⟨_, rfl, trivial⟩, ?_⟩
  have hx : x = .ok () := hA.deleted x rfl
  subst hx
  rintro _ rfl -
  exact ⟨by simp, _, List.mem_cons_self, .inl rfl⟩

theorem seen_checkCallback (hk : callbackNamed data req = some k) :
    seenWp (AnsweredOff data k (.finish req payload session)) (fun _ _ => True)
      (checkCallback data req payload) (TakenAway k) tr := by
  obtain ⟨cookie, hcookie, hid⟩ := Option.bind_eq_some_iff.mp hk
  have hdecoded : data.decodeCallbackCookie cookie = .ok k := by
    cases hd : data.decodeCallbackCookie cookie with
    | ok id => rw [hd] at hid; rw [Option.some.inj hid]
    | error e => rw [hd] at hid; cases hid
  unfold checkCallback
  rw [hcookie]
  show seenWp _ _ (answer (data.decodeCallbackCookie cookie) >>= _) _ _
  rw [hdecoded]
  show seenWp _ _ (if k ≠ payload.state then _ else _) _ _
  split
  · exact seen_deleted _
  · -- the callback is looked up
    rintro _ rfl - x _ ⟨hA, rfl⟩
    refine ⟨trivial, ⟨_, rfl, trivial⟩, ?_⟩
    rcases hA.found x rfl with rfl | ⟨slf, rfl, hname, hmeets⟩
    · rintro _ rfl -
      exact ⟨by simp, _, List.mem_cons_self, .inr rfl⟩
    · show seenWp _ _ (if slf.xsrfToken ≠ payload.xsrfToken then _ else _) _ _
      rw [hname]
      split
      · exact seen_deleted _
      next hxsrf =>
      split
      · exact seen_deleted _
      next hpkce =>
      exact absurd ⟨req, payload, session, rfl, not_not.mp hxsrf, not_not.mp hpkce⟩ hmeets

theorem seen_loginFinish (hk : callbackNamed data req = some k) :
    seenWp (AnsweredOff data k (.finish req payload session)) (fun _ _ => True)
      (loginFinish data req payload session) (TakenAway k) tr := by
  refine wp_bind (fun _ => rfl) (wp_mono (seen_checkCallback hk) fun r tr' h => ?_)
  cases r with
  | ok slf => exact absurd rfl (h.1 slf)
  | error e => exact ⟨by simp, h.2⟩

/-- The request ends as it should: if it identifies the callback, then it has taken it. -/
theorem seen_upstreamReq (callbackUri : String) (q : UpstreamReq) :
    seenWp (AnsweredOff data k q) (fun _ _ => True) (q.prog data callbackUri)
      (fun r tr => q.Identifies data k → TakenAway k r tr) [] := by
  have hany : ∀ p : M ErrorResponse Unit, seenWp (AnsweredOff data k q) (fun _ _ => True) p
      (fun _ _ => True) [] := fun p =>
    wp_mono (sees_of_within (φ := fun _ => True) (within_of_forall (fun _ => trivial) p)
      fun _ _ _ _ _ => trivial) fun _ _ _ => trivial
  by_cases hq : q.Identifies data k
  · obtain ⟨req, payload, session, rfl, hk⟩ := hq
    refine wp_bind (fun _ => rfl) (wp_mono (seen_loginFinish hk) fun r tr' h => ?_)
    cases r with
    | ok step => exact absurd rfl (h.1 step)
    | error e => exact fun _ => ⟨by simp, h.2⟩
  · exact wp_mono (hany _) fun _ _ _ h => absurd h hq

end Ends

/-! ### All interleavings -/

section Runs

variable {data : AppState} {callbackUri k : String} {w₀ : World}
  {P : Pool UpstreamReq Op Op.Res World (Fault ErrorResponse) Unit}
  {C : World → UpstreamLog → UpstreamEvent → Prop}

theorem callbacks_named (h₀ : CallbacksOk w₀)
    (h : Run (UpstreamReq.prog data callbackUri) sem C (init w₀) P) : CallbacksNamed P.world := by
  refine (Run.inv_of_seen (A := fun _ => Op.Possible) (G := fun _ => CallbackStep)
    (F := fun _ r tr => ∀ b, r = .ok b → True)
    (I := fun w _ => CallbacksNamed w) (sees_upstreamReq callbackUri) (fun w l t q o x w' _ _ hx _ => ⟨w, w', hx⟩) h₀.named ?_ ?_ ?_ h).1
  · exact fun w l t q hI _ _ => hI
  · intro w l t q o x w' hI _ _ hx _ hG k v hv
    rcases sem_cache hx hv with hold | hput
    · exact hI k v hold
    · exact hG.named k v hput
  · exact fun w l t q r hI _ _ _ _ => hI

/-- **A callback whose checks all fail is gone** when the first request that identifies it
returns, whatever the interleaving. -/
theorem callback_removed (h₀ : CallbacksOk w₀)
    (h : Run (UpstreamReq.prog data callbackUri) sem (ChecksFail data k) (init w₀) P) :
    CallbackOnce data k w₀ P.world P.log where
  once t t' ht := by
    obtain ⟨q, o, x, slf, hq, hmem, -, hfound, hmeets⟩ := ht
    obtain ⟨m, l, hl⟩ := List.append_of_mem hmem
    obtain ⟨w, w', -, hC, -, hop⟩ := (Run.past (I := fun _ _ => True) (fun _ _ => trivial) h).of_suffix
      ⟨m, hl.symm⟩
    obtain ⟨-, ⟨q', hq'⟩, -⟩ := hop t o x rfl
    obtain rfl : q' = q := h.start_unique (by rw [hl]; simp [hq']) hq
    exact absurd hmeets (hC.fails t q' o x slf rfl hq' hfound)
  gone t q r l₂ l₁ hl hid hknown hdone := by
    have hassumed := h.assuming (I := CallbacksNamed) fun P hP => callbacks_named h₀ hP
    -- the request has taken the callback
    have htaken := Run.promises (A := AnsweredOff data k) (G := fun _ _ _ => True)
      (F := fun q r tr => q.Identifies data k → TakenAway k r tr) (seen_upstreamReq callbackUri) ?_
      hassumed
    · obtain ⟨m, n, hm⟩ := List.append_of_mem hdone
      obtain ⟨-, hend⟩ := htaken.of_suffix ⟨m, hm.symm⟩
      obtain ⟨q', hq', hF⟩ := hend t r rfl
      have hstart : .start t q ∈ P.log := by rw [hl]; simp
      have hstart' : .start t q' ∈ P.log := by rw [hm]; simp [hq']
      obtain rfl : q' = q := h.start_unique hstart' hstart
      obtain ⟨-, ⟨o, x⟩, hs, htakes⟩ := hF hid
      -- and after it was known
      obtain ⟨b, a, hb⟩ := List.append_of_mem (mem_of_seenBy hs)
      have hlog : P.log = (m ++ .done t r :: b) ++ .op t o x :: a := by rw [hm, hb]; simp
      obtain ⟨s, hs⟩ := h.op_after_start hl hlog
      have hknown' : (cacheTickets .authProviderCallback).Known w₀ k a := by
        rw [hs]
        exact (hknown.append [_]).append s
      have hspent : (cacheTickets .authProviderCallback).Spent w₀ k P.log :=
        ⟨_, t, o, x, a, hlog, htakes, hknown'⟩
      have hinv := Run.tickets (cacheTickets_lawful .authProviderCallback) h₀.issued
        (fun q => seenWp_weaken (sees_upstreamReq callbackUri q) fun _ _ h => h.once _ (by simp))
        (fun w l t q o x w' _ hx _ => ⟨w, w', hx⟩) h
      exact not_not.mp (hinv.spent k hspent)
    · rintro w l t q o x w' hq hx ⟨hnamed, hC⟩
      refine ⟨?_, ?_⟩
      · rintro x' ⟨⟩
        obtain ⟨v, rfl⟩ := hC.found t _ rfl
        cases v with
        | none => exact .inl rfl
        | some v =>
            have hv : w.cache .authProviderCallback k = some v := by
              rcases sem_cacheGet.mp hx with ⟨he, -⟩ | ⟨he, -⟩ | ⟨e, he, -⟩
              · exact (Except.ok.inj he).symm
              · cases he
              · cases he
            obtain ⟨slf, rfl, hname⟩ := hnamed k v hv
            exact .inr ⟨slf, rfl, hname, hC.fails t q _ _ slf rfl hq rfl⟩
      · rintro x' ⟨⟩
        exact hC.deleted t _ rfl

end Runs

/-! ### A login that is finished twice -/

/-- A provider, a client, and no login yet. -/
def upstreamWorld : World where
  clock := 0
  issued := []
  db
    | .authProviders => [sampleProvider]
    | .clients => [{ (default : Client) with id := "client" }]
    | _ => []
  cache _ _ := none

theorem upstreamWorld_ok : CallbacksOk upstreamWorld where
  issued _ h := absurd rfl h
  named _ _ h := by cases h

def loginId : String := "cccccccccccccccccccccccccccccccc"

def upstreamStart : UpstreamReq :=
  .start { (default : ProviderLoginRequest) with
    clientId := "client", providerId := "provider", pkceChallenge := "verifier" }

def upstreamFinish (state xsrfToken : String) : UpstreamReq :=
  .finish { (default : HttpRequest) with upstreamCallbackCookie := some loginId }
    { state, xsrfToken, code := "code", pkceVerifier := "verifier" } default

/-- The login is started by request 0. -/
def upstreamStartMoves : List (Move UpstreamReq Choice) :=
  .start 0 upstreamStart ::
    ([.ok, .ok, .ok, .ok, .ok, .ok, .rand loginId, .rand "xxxxxxxxxxxxxxxxxxxxxxxxxxxxxxxx",
      .ok].map (.op 0)) ++ [.done 0]

/-- Then request 1 finds the callback and presents another XSRF token. -/
def forgedMoves : List (Move UpstreamReq Choice) :=
  .start 1 (upstreamFinish loginId "forged") :: [.op 1 .ok, .op 1 .ok, .done 1]

/-- The lookups and deletions are answered, and what is found has another XSRF token than the
request presents. -/
def otherToken (_ : World) (l : UpstreamLog) : UpstreamEvent → Bool
  | .op t (.cacheGet .authProviderCallback _) x =>
      match x with
      | .error _ => false
      | .ok (some (.authProviderCallback slf)) => l.all fun
          | .start t' (.finish _ payload _) => t' != t || slf.xsrfToken != payload.xsrfToken
          | _ => true
      | .ok _ => true
  | .op _ (.cacheDel .authProviderCallback _) x =>
      match x with
      | .ok _ => true
      | .error _ => false
  | _ => true

theorem checksFail_of_otherToken {data : AppState} {k : String} {w : World} {l : UpstreamLog}
    {e : UpstreamEvent} (h : otherToken w l e = true) : ChecksFail data k w l e where
  found := by
    rintro t x rfl
    cases x with
    | ok v => exact ⟨v, rfl⟩
    | error e => cases h
  deleted := by
    rintro t x rfl
    cases x with
    | ok u => rfl
    | error e => cases h
  fails := by
    rintro t q o x slf rfl hq hfound ⟨req, payload, session, rfl, hxsrf, -⟩
    cases hfound
    have hother := List.all_eq_true.mp h _ hq
    simp [hxsrf] at hother

theorem callback_removed_forged : ∃ P,
    Run (UpstreamReq.prog sampleState "https://localhost/auth/v1/providers/callback") sem
      (ChecksFail sampleState loginId) (init upstreamWorld) P ∧
    (∃ e, .done 1 (.error e) ∈ P.log) ∧
    CallbackOnce sampleState loginId upstreamWorld P.world P.log := by
  obtain ⟨P, hrun, hdone⟩ := exists_run_of_moves (C := ChecksFail sampleState loginId)
    (UpstreamReq.prog sampleState "https://localhost/auth/v1/providers/callback") Op.run otherToken
    upstreamWorld (upstreamStartMoves ++ forgedMoves)
    (fun P => (Log.doneOf 1 P.log).any fun r => !r.isOk) (by decide +kernel)
    (fun _ _ _ h => checksFail_of_otherToken h)
  refine ⟨P, hrun, ?_, callback_removed upstreamWorld_ok hrun⟩
  rcases hd : Log.doneOf 1 P.log with - | (e | u)
  · rw [hd] at hdone
    cases hdone
  · exact ⟨e, Log.mem_of_doneOf hd⟩
  · rw [hd] at hdone
    cases hdone

/-- Then request `t` meets everything the callback asks for, and the provider is not reached. -/
def unreachedMoves (t : ℕ) : List (Move UpstreamReq Choice) :=
  .start t (upstreamFinish loginId "xxxxxxxxxxxxxxxxxxxxxxxxxxxxxxxx") ::
    ([.ok, .ok, .fail ⟨.internal, "error sending request"⟩ false].map (.op t)) ++ [.done t]

/-- The callback that request `t` has found. -/
def foundCallback (t : ℕ) (k : String) (l : UpstreamLog) : Option AuthProviderCallback :=
  l.findSome? fun
    | .op t' (.cacheGet .authProviderCallback k') (.ok (some (.authProviderCallback slf))) =>
        if t' = t ∧ k' = k then some slf else none
    | _ => none

theorem mem_of_foundCallback {t : ℕ} {k : String} {l : UpstreamLog} {slf : AuthProviderCallback}
    (h : foundCallback t k l = some slf) :
    ∃ o x, .op t o x ∈ l ∧ FoundCallback o x k slf := by
  obtain ⟨e, he, hs⟩ := List.exists_of_findSome?_eq_some h
  split at hs
  · next t' k' slf' =>
      split at hs
      · next hk =>
          cases hs
          obtain ⟨rfl, rfl⟩ := hk
          exact ⟨_, _, he, rfl⟩
      · cases hs
  · cases hs

/-- The login is finished with the callback, the token and the verifier that it was started with. -/
def finishesSample : UpstreamReq → Bool
  | .finish req payload _ => callbackNamed sampleState req == some loginId &&
      payload.xsrfToken == "xxxxxxxxxxxxxxxxxxxxxxxxxxxxxxxx" && payload.pkceVerifier == "verifier"
  | _ => false

/-- **The callback is still there** after two requests that have both found it, met what it asks
for, and failed later. -/
theorem callback_used_twice : ∃ P,
    Run (UpstreamReq.prog sampleState "https://localhost/auth/v1/providers/callback") sem
      (fun _ _ _ => True) (init upstreamWorld) P ∧
    (∀ t ∈ [1, 2], PassedChecks sampleState t loginId P.log ∧ ∃ e, .done t (.error e) ∈ P.log) ∧
    P.world.cache .authProviderCallback loginId ≠ none ∧
    ¬ CallbackOnce sampleState loginId upstreamWorld P.world P.log := by
  obtain ⟨P, hrun, hP⟩ := exists_run_of_moves (C := fun _ _ _ => True)
    (UpstreamReq.prog sampleState "https://localhost/auth/v1/providers/callback") Op.run
    (fun _ _ _ => true) upstreamWorld (upstreamStartMoves ++ unreachedMoves 1 ++ unreachedMoves 2)
    (fun P => (P.world.cache .authProviderCallback loginId).isSome && [1, 2].all fun t =>
      (foundCallback t loginId P.log).any (fun slf => slf.pkceChallenge == "verifier" &&
        slf.xsrfToken == "xxxxxxxxxxxxxxxxxxxxxxxxxxxxxxxx") &&
      ((Log.doneOf t P.log).any fun r => !r.isOk) && (Log.startOf t P.log).any finishesSample)
    (by decide +kernel) (fun _ _ _ _ => trivial)
  rw [Bool.and_eq_true] at hP
  obtain ⟨hstill, hP⟩ := hP
  have hpassed : ∀ t ∈ [1, 2], PassedChecks sampleState t loginId P.log ∧
      ∃ e, .done t (.error e) ∈ P.log := by
    intro t ht
    have h := List.all_eq_true.mp hP t ht
    simp only [Bool.and_eq_true] at h
    obtain ⟨⟨hfound, hdone⟩, hstart⟩ := h
    refine ⟨?_, ?_⟩
    · rcases hslf : foundCallback t loginId P.log with - | slf
      · rw [hslf] at hfound
        cases hfound
      rw [hslf] at hfound
      obtain ⟨o, x, hmem, hfc⟩ := mem_of_foundCallback hslf
      obtain ⟨q, hs, hq⟩ := (Option.any_eq_true _ _).mp hstart
      cases q with
      | finish req payload session =>
          simp only [finishesSample, Option.any_some, Bool.and_eq_true, beq_iff_eq] at hq hfound
          obtain ⟨⟨hname, hxsrf⟩, hpkce⟩ := hq
          have hchallenge : slf.pkceChallenge = base64UrlEncode sampleState
              (sampleState.sha256 (Text.asBytes payload.pkceVerifier)) := by
            rw [hfound.1, hpkce]
            decide +kernel
          exact ⟨_, o, x, slf, Log.mem_of_startOf hs, hmem, ⟨_, _, _, rfl, hname⟩, hfc,
            ⟨_, _, _, rfl, hfound.2.trans hxsrf.symm, hchallenge⟩⟩
      | start payload => cases hq
      | other p h => cases hq
    · rcases hd : Log.doneOf t P.log with - | (e | u)
      · rw [hd] at hdone
        cases hdone
      · exact ⟨e, Log.mem_of_doneOf hd⟩
      · rw [hd] at hdone
        cases hdone
  have htwice : ¬ CallbackOnce sampleState loginId upstreamWorld P.world P.log := by
    intro h
    have honce := h.once 1 2 (hpassed 1 (by simp)).1 (hpassed 2 (by simp)).1
    cases honce
  exact ⟨P, hrun, hpassed, Option.isSome_iff_ne_none.mp hstill, htwice⟩

end Rauthy
