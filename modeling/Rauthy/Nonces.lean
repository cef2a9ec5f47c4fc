/-
Rauthy/Nonces.lean

The nonces of DPoP proofs, over any number of token requests in any interleaving.

A nonce is kept in the cache under its own value until it expires, and a proof with a nonce
is to be accepted only if the nonce is found there.  What `is_valid` looks at is whether the
lookup has failed: a lookup that finds nothing is no failure.

Main results:
  * `nonces_honoured`: every nonce is accepted whose lookup does not fail, and with requests
    that carry only nonces of the server none other is;
  * `forged_nonce_accepted`: a nonce that nobody has issued is accepted.
-/
import Rauthy.Keys
import Rauthy.Lib.Tickets

namespace Rauthy

open Prog Pool

/-! ### The system -/

/-- The proof of a token request, which comes with the allowed origin of its client. -/
structure ProofRequest where
  req : HttpRequest
  headerOrigin : Option String
  deriving DecidableEq

def ProofRequest.prog (data : AppState) (q : ProofRequest) : M ErrorResponse (Option DPoPProof) :=
  DPoPProof.optValidatedFrom data q.req q.headerOrigin

abbrev ProofOutcome := Except (Fault ErrorResponse) (Option DPoPProof)

abbrev ProofEvent := Event ProofRequest Op Op.Res ProofOutcome

abbrev ProofLog := Log ProofRequest Op Op.Res ProofOutcome

abbrev ProofPool := Pool ProofRequest Op Op.Res World (Fault ErrorResponse) (Option DPoPProof)

/-- The proof that a request carries, if its header can be decoded. -/
def ProofRequest.proof (data : AppState) (q : ProofRequest) : Option DPoPProof :=
  match q.req.dpop with
  | none => none
  | some b64 =>
      match data.decodeDPoP q.headerOrigin b64 with
      | .ok slf => some slf
      | .error _ => none

/-! ### What a request does -/

section Traces

variable {data : AppState} {A : (o : Op) → o.Res → Prop} {tr tr' : List (Seen Op Op.Res)}
  {proof slf : DPoPProof} {n : String} {q : ProofRequest}

theorem traced_now {ε : Type} {r : Except (Fault ε) Int}
    (h : Exec (traced A) (unixTimestamp : M ε Int) tr r tr') :
    ∃ ms : Int, r = .ok (ms / 1000) ∧ tr' = ⟨.now, ms⟩ :: tr := by
  obtain ⟨ms, tr₁, ⟨-, rfl⟩, hret⟩ := h
  obtain ⟨rfl, rfl⟩ := hret
  exact ⟨ms, rfl, rfl⟩

/-- The lookup of a nonce: it is valid, whether it is found or not. -/
theorem traced_isValid (hA : ∀ k c, A (.cacheGet .dpopNonces k) (.ok (some c)) →
      ∃ d, c = .dpopNonce d) {r : Except (Fault ErrorResponse) Bool}
    (h : Exec (traced A) (DPoPNonce.isValid n) tr r tr') :
    ∃ x, tr' = ⟨.cacheGet .dpopNonces n, x⟩ :: tr ∧
      ((∃ v, x = .ok v) ∧ r = .ok true ∨ (∃ e, x = .error e) ∧ r = .ok false) := by
  obtain ⟨x, tr₁, ⟨hx, rfl⟩, hk⟩ := h
  rcases x with e | - | c
  · obtain ⟨rfl, rfl⟩ := hk
    exact ⟨_, rfl, .inr ⟨⟨e, rfl⟩, rfl⟩⟩
  · obtain ⟨rfl, rfl⟩ := hk
    exact ⟨_, rfl, .inl ⟨⟨none, rfl⟩, rfl⟩⟩
  · obtain ⟨d, rfl⟩ := hA _ _ hx
    obtain ⟨rfl, rfl⟩ := hk
    exact ⟨_, rfl, .inl ⟨⟨_, rfl⟩, rfl⟩⟩

/-- The nonce of a proof is accepted, unless its lookup fails. -/
theorem traced_validateNonce (hA : ∀ k c, A (.cacheGet .dpopNonces k) (.ok (some c)) →
      ∃ d, c = .dpopNonce d) {r : Except (Fault ErrorResponse) (Option String)}
    (hn : proof.claims.nonce = some n)
    (h : Exec (traced A) (proof.validateNonce data) tr r tr') :
    (∃ v, tr' = ⟨.cacheGet .dpopNonces n, .ok v⟩ :: tr ∧ r = .ok none) ∨
      (∃ e, ⟨.cacheGet .dpopNonces n, .error e⟩ ∈ tr') ∧ r ≠ .ok none := by
  unfold DPoPProof.validateNonce at h
  rw [hn] at h
  rcases exec_bind.mp h with ⟨e, -, hvalid⟩ | ⟨ok, tr₁, hvalid, hrest⟩
  · obtain ⟨x, -, ⟨-, hr⟩ | ⟨-, hr⟩⟩ := traced_isValid hA hvalid
    · cases hr
    · cases hr
  · obtain ⟨x, rfl, ⟨⟨v, rfl⟩, hr⟩ | ⟨⟨e, rfl⟩, hr⟩⟩ := traced_isValid hA hvalid
    · cases hr
      obtain ⟨rfl, rfl⟩ := hrest
      exact .inl ⟨v, rfl, rfl⟩
    · cases hr
      refine .inr ⟨⟨e, traced_mono hrest _ List.mem_cons_self⟩, ?_⟩
      rintro rfl
      obtain ⟨latest, _, -, hret⟩ := exec_bind_ok.mp hrest
      exact absurd hret.1 (by simp)

theorem accepted_proof (h : Exec (traced A) (q.prog data) [] (.ok (some slf)) tr) :
    ∃ b64, q.req.dpop = some b64 ∧ data.isToken68 b64 = true ∧
      data.decodeDPoP q.headerOrigin b64 = .ok slf := by
  unfold ProofRequest.prog DPoPProof.optValidatedFrom at h
  split at h
  · exact absurd h.1 (by simp)
  next b64 hb64 =>
  obtain ⟨_, _, hx₁, h₁⟩ := exec_bind_ok.mp h
  obtain ⟨hformat, rfl⟩ := (exec_throwIf_ok (u := ())).mp hx₁
  obtain ⟨slf', _, hx₂, h₂⟩ := exec_bind_ok.mp h₁
  obtain ⟨hdec, rfl⟩ := exec_answer.mp hx₂
  obtain ⟨now, _, -, h₃⟩ := exec_bind_ok.mp h₂
  refine ⟨b64, hb64, by simpa using hformat, ?_⟩
  split at h₃
  · exact absurd h₃.1 (by simp)
  · obtain ⟨x, _, -, h₄⟩ := exec_bind_ok.mp h₃
    rcases x with - | nonce
    · obtain ⟨hret, -⟩ := h₄
      cases hret
      exact hdec
    · exact absurd h₄.1 (by simp)

/-- **A request with a nonce**, from its first operation to its last: it reads the clock; then
its proof is refused for another reason, or the nonce is looked up. -/
theorem traced_proof (hA : ∀ k c, A (.cacheGet .dpopNonces k) (.ok (some c)) →
      ∃ d, c = .dpopNonce d) {r : ProofOutcome} {b64 : String} (hb64 : q.req.dpop = some b64)
    (hformat : data.isToken68 b64 = true)
    (hdec : data.decodeDPoP q.headerOrigin b64 = .ok slf) (hn : slf.claims.nonce = some n)
    (h : Exec (traced A) (q.prog data) [] r tr) :
    ∃ ms : Int,
      (tr = [⟨.now, ms⟩] ∧ (∃ msg, slf.validateAt data b64 (ms / 1000) = .error msg) ∧
        ∀ a, r ≠ .ok a) ∨
      (∃ v, tr = [⟨.cacheGet .dpopNonces n, .ok v⟩, ⟨.now, ms⟩] ∧ r = .ok (some slf)) ∨
      ((∃ e, ⟨.cacheGet .dpopNonces n, .error e⟩ ∈ tr) ∧ ∀ a, r ≠ .ok a) := by
  unfold ProofRequest.prog DPoPProof.optValidatedFrom at h
  rw [hb64] at h
  simp only [hformat, hdec, throwIf, answer, Bool.true_eq_false, if_false, ret_bind] at h
  rcases exec_bind.mp h with ⟨e, -, hnow⟩ | ⟨now, tr₁, hnow, hrest⟩
  · obtain ⟨ms, hr, -⟩ := traced_now hnow
    cases hr
  obtain ⟨ms, hr, rfl⟩ := traced_now hnow
  cases hr
  refine ⟨ms, ?_⟩
  rcases hval : slf.validateAt data b64 (ms / 1000) with msg | u
  · rw [hval] at hrest
    obtain ⟨rfl, rfl⟩ := hrest
    exact .inl ⟨rfl, ⟨msg, rfl⟩, by simp⟩
  · rw [hval] at hrest
    rcases exec_bind.mp hrest with ⟨e, rfl, hvalid⟩ | ⟨x, tr₂, hvalid, hlast⟩
    · obtain ⟨v, -, hr⟩ | ⟨he, -⟩ := traced_validateNonce hA hn hvalid
      · cases hr
      · exact .inr (.inr ⟨he, by simp⟩)
    · obtain ⟨v, rfl, hr⟩ | ⟨⟨e, he⟩, hr⟩ := traced_validateNonce hA hn hvalid
      · cases hr
        obtain ⟨rfl, rfl⟩ := hlast
        exact .inr (.inl ⟨v, rfl, rfl⟩)
      · rcases x with - | nonce
        · exact absurd rfl hr
        · obtain ⟨rfl, rfl⟩ := hlast
          exact .inr (.inr ⟨⟨e, he⟩, by simp⟩)

end Traces

/-! ### Nonces of the server -/

/-- The server has kept the nonce, and it has not expired at the time `ms`. -/
def Issued (l : ProofLog) (n : String) (ms : Int) : Prop :=
  ∃ t exp, .op t (.cachePut .dpopNonces n (.dpopNonce ⟨exp, n⟩)) (.ok ()) ∈ l ∧ ms ≤ exp

/-- The lookup of the nonce that a proof carries, by a request that has read the time `ms`:
unless it fails, the nonce is one of the server that has not expired. -/
def GenuineNonce (data : AppState) (_ : World) (l : ProofLog) (e : ProofEvent) : Prop :=
  ∀ t q slf n v ms, e = .op t (.cacheGet .dpopNonces n) (.ok v) → .start t q ∈ l →
    q.proof data = some slf → slf.claims.nonce = some n → seenBy t l = [⟨.now, ms⟩] →
    Issued l n ms

/-- What nonces are for. -/
structure NoncesHonoured (data : AppState) (l : ProofLog) : Prop where
  /-- a proof with a nonce is accepted only if the nonce is one of the server that has not
  expired -/
  genuine : ∀ t slf n, .done t (.ok (some slf)) ∈ l → slf.claims.nonce = some n →
    ∃ ms l₂ l₁ v, l = l₂ ++ .op t (.cacheGet .dpopNonces n) (.ok v) :: l₁ ∧
      .op t .now ms ∈ l₁ ∧ Issued l₁ n ms
  /-- a nonce is accepted with every proof that is fine otherwise, unless its lookup fails -/
  honoured : ∀ t q r b64 slf n ms, .start t q ∈ l → .done t r ∈ l → q.req.dpop = some b64 →
    data.isToken68 b64 = true → data.decodeDPoP q.headerOrigin b64 = .ok slf →
    slf.claims.nonce = some n → .op t .now ms ∈ l →
    slf.validateAt data b64 (ms / 1000) = .ok () →
    (∀ e, .op t (.cacheGet .dpopNonces n) (.error e) ∉ l) → r = .ok (some slf)

section Runs

variable {data : AppState} {w₀ : World} {P : ProofPool}
  {C : World → ProofLog → ProofEvent → Prop}

/-- What is kept among the nonces is a nonce. -/
def NoncesTyped (w : World) : Prop :=
  ∀ k c, w.cache .dpopNonces k = some c → ∃ d, c = .dpopNonce d

theorem NoncesTyped.frame {w w' : World} (h : NoncesTyped w)
    (hf : Frame [] [(.dpopNonces, .dpopNonce)] w w') : NoncesTyped w' := by
  intro k c hc
  rcases hf.cache _ _ c hc with hc | hslot
  · exact h k c hc
  · have hs : c.slot = .dpopNonce := by simpa using hslot
    cases c <;> first | exact ⟨_, rfl⟩ | cases hs

theorem noncesTyped_run (h₀ : NoncesTyped w₀) (h : Run (ProofRequest.prog data) sem C (init w₀) P) :
    NoncesTyped P.world := by
  have hkeeps := Run.keeps (I := NoncesTyped) (F := fun _ _ => True) h₀ (fun _ _ _ q _ =>
      keeps_of_touches (DPoPProof.optValidatedFrom_touches data q.req q.headerOrigin)
        fun _ _ hf hw => hw.frame hf) h
  exact hkeeps.1

/-- The answers of the operations where the nonces are typed. -/
def NonceAnswer (o : Op) (x : o.Res) : Prop := ∃ w w', NoncesTyped w ∧ sem o w x w'

theorem NonceAnswer.typed (k : String) (c : CacheVal)
    (h : NonceAnswer (.cacheGet .dpopNonces k) (.ok (some c))) : ∃ d, c = .dpopNonce d := by
  obtain ⟨w, w', hw, hx⟩ := h
  rcases sem_cacheGet.mp hx with ⟨hc, -⟩ | ⟨hc, -⟩ | ⟨e, hc, -⟩
  · exact hw k c (Except.ok.inj hc).symm
  · cases hc
  · cases hc

theorem proof_ended (h₀ : NoncesTyped w₀) (h : Run (ProofRequest.prog data) sem C (init w₀) P)
    {t : ℕ} {r : ProofOutcome} (hdone : .done t r ∈ P.log) :
    ∃ q, .start t q ∈ P.log ∧
      Exec (traced NonceAnswer) (q.prog data) [] r (seenBy t P.log) := by
  have htyped := Run.assuming (I := NoncesTyped) (fun P hP => noncesTyped_run h₀ hP) h
  obtain ⟨-, htraced⟩ := Run.traced (A := fun _ => NonceAnswer)
    (fun w _ _ _ _ _ w' _ hx hC => ⟨w, w', hC.1, hx⟩) htyped
  exact htraced t r hdone

theorem ProofRequest.proof_eq {q : ProofRequest} {b64 : String} {slf : DPoPProof}
    (hb64 : q.req.dpop = some b64) (hdec : data.decodeDPoP q.headerOrigin b64 = .ok slf) :
    q.proof data = some slf := by
  unfold ProofRequest.proof
  rw [hb64]
  simp only [hdec]

/-- **Nonces are honoured** in every run from a server that has none yet, if the nonces that
requests carry are ones of the server that have not expired. -/
theorem nonces_honoured (data : AppState) (w₀ : World) (P : ProofPool)
    (h₀ : ∀ k, w₀.cache .dpopNonces k = none)
    (h : Run (ProofRequest.prog data) sem (GenuineNonce data) (init w₀) P) :
    NoncesHonoured data P.log := by
  have htyped : NoncesTyped w₀ := by
    intro k c hc
    rw [h₀ k] at hc
    cases hc
  refine ⟨fun t slf n hdone hn => ?_, fun t q r b64 slf n ms hstart hdone hb64 hformat hdec hn hms
    hval hanswered => ?_⟩
  · obtain ⟨q, hstart, hx⟩ := proof_ended htyped h hdone
    obtain ⟨b64, hb64, hformat, hdec⟩ := accepted_proof hx
    obtain ⟨ms, ⟨-, -, hr⟩ | ⟨v, htr, -⟩ | ⟨-, hr⟩⟩ :=
      traced_proof NonceAnswer.typed hb64 hformat hdec hn hx
    · exact absurd rfl (hr _)
    · -- the lookup stands in the log, and the condition is about it
      obtain ⟨l₂, l₁, hl, -, hl₁⟩ := split_of_seenBy (htr.trans (List.nil_append _).symm)
      have hpast := Run.past (I := fun _ _ => True) (fun _ _ => trivial) h
      obtain ⟨w, w', -, hgenuine, -, hop⟩ := hpast.of_suffix ⟨l₂, hl.symm⟩
      obtain ⟨-, ⟨q', hstart'⟩, -⟩ := hop t _ _ rfl
      have hq : q' = q := by
        refine h.start_unique ?_ hstart
        rw [hl]
        exact List.mem_append_right _ (List.mem_cons_of_mem _ hstart')
      rw [hq] at hstart'
      refine ⟨ms, l₂, l₁, v, hl, mem_of_seenBy (by rw [hl₁]; exact List.mem_cons_self), ?_⟩
      exact hgenuine t q slf n v ms rfl hstart' (ProofRequest.proof_eq hb64 hdec) hn hl₁
    · exact absurd rfl (hr _)
  · obtain ⟨q', hstart', hx⟩ := proof_ended htyped h hdone
    obtain rfl := h.start_unique hstart hstart'
    obtain ⟨ms', ⟨htr, ⟨msg, hmsg⟩, -⟩ | ⟨v, -, hr⟩ | ⟨⟨e, he⟩, -⟩⟩ :=
      traced_proof NonceAnswer.typed hb64 hformat hdec hn hx
    · have hmem := mem_seenBy.mpr hms
      rw [htr, List.mem_singleton] at hmem
      cases hmem
      rw [hval] at hmsg
      cases hmsg
    · exact hr
    · exact absurd (mem_seenBy.mp he) (hanswered e)

end Runs

/-! ### A forged nonce -/

/-- A server where a header is the nonce of its proof. -/
def nonceState : AppState :=
  { sampleState with
    decodeDPoP := fun _ nonce => .ok
      { typ := "dpop+jwt"
        claims :=
          { jti := "jti", htm := "POST", htu := "https://localhost/auth/v1/oidc/token", iat := 100,
            nonce := some nonce }
        fingerprint := .ok "fingerprint" } }

def nonceWorld : World where
  clock := 100000
  issued := []
  db _ := []
  cache _ _ := none

def nonceRequest (nonce : String) : ProofRequest :=
  ⟨{ (default : HttpRequest) with dpop := some nonce }, none⟩

/-- `GenuineNonce`, as a test of one event. -/
def genuineNonce (_ : World) (l : ProofLog) : ProofEvent → Bool
  | .op t (.cacheGet .dpopNonces n) (.ok _) =>
      match seenBy t l with
      | [⟨.now, ms⟩] => l.any fun
          | .op _ (.cachePut .dpopNonces k (.dpopNonce d)) x =>
              decide (k = n ∧ d.value = n ∧ ms ≤ d.exp ∧ x = .ok ())
          | _ => false
      | _ => true
  | _ => true

theorem genuineNonce_of_test {w : World} {l : ProofLog} {e : ProofEvent}
    (h : genuineNonce w l e = true) : GenuineNonce nonceState w l e := by
  rintro t q slf n v ms rfl - - - hseen
  simp only [genuineNonce, hseen] at h
  obtain ⟨e, he, hput⟩ := List.any_eq_true.mp h
  split at hput
  · next t' k d x =>
      obtain ⟨rfl, hvalue, hms, rfl⟩ := of_decide_eq_true hput
      refine ⟨t', d.exp, ?_, hms⟩
      have hd : d = ⟨d.exp, k⟩ := by rw [← hvalue]
      rwa [hd] at he
  · cases hput

def firstNonce : String := String.ofList (List.replicate 32 'a')

/-- The lookup of the first request fails, and it gets a nonce; the second one uses it. -/
def nonceMoves : List (Move ProofRequest Choice) :=
  [.start 0 (nonceRequest "old"), .op 0 (.time 100000), .op 0 (.fail ⟨.internal, "cache"⟩ false),
    .op 0 .ok, .op 0 (.time 100000), .op 0 (.rand firstNonce), .op 0 .ok, .op 0 .ok, .done 0,
    .start 1 (nonceRequest firstNonce), .op 1 (.time 100000), .op 1 .ok, .done 1]

theorem nonces_honoured_second : ∃ P, Run (ProofRequest.prog nonceState) sem
    (GenuineNonce nonceState) (init nonceWorld) P ∧
      Log.startOf 1 P.log = some (nonceRequest firstNonce) ∧
      (∃ slf, .done 1 (.ok (some slf)) ∈ P.log) ∧ NoncesHonoured nonceState P.log := by
  obtain ⟨P, hrun, hlog⟩ := exists_run_of_moves (ProofRequest.prog nonceState) Op.run
    genuineNonce nonceWorld nonceMoves
    (fun P => decide (Log.startOf 1 P.log = some (nonceRequest firstNonce)) &&
      (Log.doneOf 1 P.log).any fun r => r.toOption.any Option.isSome)
    (by decide +kernel) (fun _ _ _ h => genuineNonce_of_test h)
  obtain ⟨hstart, hdone⟩ := Bool.and_eq_true_iff.mp hlog
  refine ⟨P, hrun, of_decide_eq_true hstart, ?_, nonces_honoured nonceState nonceWorld P
    (fun _ => rfl) hrun⟩
  obtain ⟨r, hr, hok⟩ := (Option.any_eq_true _ _).mp hdone
  rcases r with e | - | slf
  · cases hok
  · cases hok
  · exact ⟨slf, Log.mem_of_doneOf hr⟩

/-- Nothing has been written to a cache. -/
def putsNothing (l : ProofLog) : Bool :=
  l.all fun
    | .op _ (.cachePut _ _ _) _ => false
    | _ => true

/-- A nonce that nobody has issued is accepted. -/
theorem forged_nonce_accepted :
    ¬ ∀ (data : AppState) (w₀ : World) (P : ProofPool), (∀ k, w₀.cache .dpopNonces k = none) →
      Run (ProofRequest.prog data) sem (fun _ _ _ => True) (init w₀) P →
      NoncesHonoured data P.log := by
  intro h
  obtain ⟨P, hrun, hlog⟩ := exists_run_of_moves (C := fun _ _ _ => True)
    (ProofRequest.prog nonceState) Op.run (fun _ _ _ => true) nonceWorld
    [.start 0 (nonceRequest "forged"), .op 0 (.time 100000), .op 0 .ok, .done 0]
    (fun P => ((Log.doneOf 0 P.log).any fun r => r.toOption.any fun proof =>
      proof.any fun slf => slf.claims.nonce == some "forged") && putsNothing P.log)
    (by decide +kernel) (fun _ _ _ _ => trivial)
  obtain ⟨hdone, hputs⟩ := Bool.and_eq_true_iff.mp hlog
  obtain ⟨r, hr, hnonce⟩ := (Option.any_eq_true _ _).mp hdone
  rcases r with e | - | slf
  · cases hnonce
  · cases hnonce
  obtain ⟨ms, l₂, l₁, v, hl, -, t, exp, hput, -⟩ := (h nonceState nonceWorld P (fun _ => rfl)
    hrun).genuine 0 slf "forged" (Log.mem_of_doneOf hr) (beq_iff_eq.mp hnonce)
  -- no nonce has been kept at all
  have hno := List.all_eq_true.mp hputs _ (by
    rw [hl]
    exact List.mem_append_right _ (List.mem_cons_of_mem _ hput))
  cases hno

end Rauthy
