/-
Rauthy/CodeRedemption.lean

Any number of token requests of the authorization code grant, in any interleaving.

The code is looked up at the beginning and deleted at the end of a request, with the
checks, the tokens and the session in between.  So two requests that both find it both
redeem it.  What is missing is exclusion: if a lookup finds a code only when no other
request that has found it is still in flight, a code is redeemed at most once.

Main results:
  * `redeemed_at_most_once`: with that exclusion;
  * `redeemed_twice`: without.
-/
import Rauthy.Auth

namespace Rauthy

open Prog Pool

variable {t : ℕ} {w : World} {l : CodeLog}

structure CodeReq where
  req : HttpRequest
  reqData : TokenRequest
  deriving DecidableEq

namespace CodeReq

def prog (data : AppState) (q : CodeReq) : M ErrorResponse (TokenSet × Headers) :=
  grantTypeCode data q.req q.reqData

end CodeReq

abbrev CodeOutcome := Except (Fault ErrorResponse) (TokenSet × Headers)

abbrev CodeEvent := Event CodeReq Op Op.Res CodeOutcome

abbrev CodeLog := Log CodeReq Op Op.Res CodeOutcome

/-! ### What is promised -/

/-- Request `t` has been answered with a token set for the code `c`. -/
def Redeemed (t : ℕ) (c : String) (l : CodeLog) : Prop :=
  (∃ q, .start t q ∈ l ∧ q.reqData.code = some c) ∧ ∃ a, .done t (.ok a) ∈ l

/-- Request `t` has looked up the code `c` and found it. -/
def Found (t : ℕ) (c : String) (l : CodeLog) : Prop :=
  ∃ v, .op t (.cacheGet .authCodes c) (.ok (some v)) ∈ l

/-- A lookup finds a code only when no other request that has found it is in flight. -/
def LookupAlone (_ : World) (l : CodeLog) (e : CodeEvent) : Prop :=
  ∀ t c v, e = .op t (.cacheGet .authCodes c) (.ok (some v)) →
    ∀ t', t' ≠ t → Found t' c l → ¬ Log.Running t' l

/-- Each code is stored under its own id, as `AuthCode::save` does. -/
def CodesKeyed (w : World) : Prop :=
  ∀ k c, w.cache .authCodes k = some (.authCode c) → c.id = k

/-! ### The invariant -/

/-- A redeemed code is gone, and a request that has found a code and is still in flight
is the only one, with nobody having redeemed the code before. -/
structure RedeemInv (w : World) (l : CodeLog) : Prop where
  keyed : CodesKeyed w
  gone : ∀ t c, Redeemed t c l → w.cache .authCodes c = none
  once : ∀ t t' c, Redeemed t c l → Redeemed t' c l → t = t'
  alone : ∀ t t' c, Found t c l → Log.Running t l → Found t' c l → Log.Running t' l → t = t'
  pending : ∀ t t' c, Found t c l → Log.Running t l → ¬ Redeemed t' c l

/-- What request `t` relies on: the log grows, `t` is started once, and a code that is
gone stays gone. -/
structure CodeRely (t : ℕ) (s s' : World × CodeLog) : Prop where
  log : ∀ e ∈ s.2, e ∈ s'.2
  start : ∀ q, .start t q ∈ s'.2 → .start t q ∈ s.2
  gone : ∀ c, s.1.cache .authCodes c = none → s'.1.cache .authCodes c = none

theorem CodeRely.refl (t : ℕ) (s : World × CodeLog) : CodeRely t s s :=
  ⟨fun _ h => h, fun _ h => h, fun _ h => h⟩

theorem CodeRely.trans {s₁ s₂ s₃ : World × CodeLog} (h₁ : CodeRely t s₁ s₂)
    (h₂ : CodeRely t s₂ s₃) : CodeRely t s₁ s₃ where
  log e h := h₂.log e (h₁.log e h)
  start q h := h₁.start q (h₂.start q h)
  gone c h := h₂.gone c (h₁.gone c h)

section Log

variable {t t' : ℕ} {c : String} {l : CodeLog}

theorem redeemed_op {o : Op} {x : o.Res} :
    Redeemed t' c (.op t o x :: l) ↔ Redeemed t' c l := by
  simp [Redeemed]

theorem redeemed_start {q : CodeReq} (hf : Log.Fresh t l) :
    Redeemed t' c (.start t q :: l) ↔ Redeemed t' c l := by
  constructor
  · rintro ⟨⟨q', hq, hc⟩, a, ha⟩
    have ha : .done t' (.ok a) ∈ l := (List.mem_cons.mp ha).resolve_left (by simp)
    rcases List.mem_cons.mp hq with hq | hq
    · cases hq
      exact absurd rfl (hf _ ha)
    · exact ⟨⟨q', hq, hc⟩, a, ha⟩
  · rintro ⟨⟨q', hq, hc⟩, a, ha⟩
    exact ⟨⟨q', List.mem_cons_of_mem _ hq, hc⟩, a, List.mem_cons_of_mem _ ha⟩

theorem found_op {o : Op} {x : o.Res} (h : Found t' c (.op t o x :: l)) :
    Found t' c l ∨ t' = t ∧ ∃ v, .op t' (.cacheGet .authCodes c) (.ok (some v)) =
      (.op t o x : CodeEvent) := by
  obtain ⟨v, hv⟩ := h
  rcases List.mem_cons.mp hv with hv | hv
  · have ht : t' = t := by cases hv; rfl
    exact .inr ⟨ht, v, hv⟩
  · exact .inl ⟨v, hv⟩

theorem Found.mono {l' : CodeLog} (h : Found t c l) (hl : ∀ e ∈ l, e ∈ l') : Found t c l' := by
  obtain ⟨v, hv⟩ := h
  exact ⟨v, hl _ hv⟩

theorem found_start {q : CodeReq} : Found t' c (.start t q :: l) ↔ Found t' c l := by
  simp [Found]

theorem found_done {a : CodeOutcome} : Found t' c (.done t a :: l) ↔ Found t' c l := by
  simp [Found]

end Log

/-- **Step lemma**: an operation that puts no code into the cache keeps the invariant
and what the others rely on. -/
theorem redeemInv_op {o : Op} {x : o.Res} {w' : World} {ts : List Table}
    {cs : List (CacheName × Slot)} (hI : RedeemInv w l) (ho : o.Touches ts cs)
    (hcs : ∀ sl, (.authCodes, sl) ∉ cs) (hx : sem o w x w') (hC : LookupAlone w l (.op t o x)) :
    RedeemInv w' (.op t o x :: l) ∧ ∀ t', CodeRely t' (w, l) (w', .op t o x :: l) := by
  have hframe := sem_frame ho hx
  have hgone : ∀ c, w.cache .authCodes c = none → w'.cache .authCodes c = none := by
    intro c hc
    rcases hv : w'.cache .authCodes c with - | v
    · rfl
    · rcases hframe.cache _ _ _ hv with h | h
      · rw [hc] at h; cases h
      · exact absurd h (hcs _)
  refine ⟨⟨?_, ?_, ?_, ?_, ?_⟩, fun t' => ⟨?_, ?_, hgone⟩⟩
  · intro k c hc
    rcases hframe.cache _ _ _ hc with h | h
    · exact hI.keyed k c h
    · exact absurd h (hcs _)
  · intro t' c h
    exact hgone c (hI.gone t' c (redeemed_op.mp h))
  · intro t₁ t₂ c h₁ h₂
    exact hI.once t₁ t₂ c (redeemed_op.mp h₁) (redeemed_op.mp h₂)
  · intro t₁ t₂ c h₁ hr₁ h₂ hr₂
    have hrun : ∀ {t'}, Log.Running t' (.op t o x :: l) → Log.Running t' l := by
      simp [Log.Running]
    rcases found_op h₁ with hf₁ | ⟨rfl, v, hv⟩
    · rcases found_op h₂ with hf₂ | ⟨rfl, v, hv⟩
      · exact hI.alone t₁ t₂ c hf₁ (hrun hr₁) hf₂ (hrun hr₂)
      · by_contra hne
        exact hC t₂ c v hv.symm t₁ hne hf₁ (hrun hr₁)
    · rcases found_op h₂ with hf₂ | ⟨rfl, -⟩
      · by_contra hne
        exact hC t₁ c v hv.symm t₂ (Ne.symm hne) hf₂ (hrun hr₂)
      · rfl
  · intro t₁ t₂ c h₁ hr₁ h₂
    have hrun : Log.Running t₁ l := by simpa [Log.Running] using hr₁
    rcases found_op h₁ with h₁ | ⟨rfl, v, hv⟩
    · exact hI.pending t₁ t₂ c h₁ hrun (redeemed_op.mp h₂)
    · -- the lookup has just found the code, so nobody can have redeemed it
      have hnone := hI.gone t₂ c (redeemed_op.mp h₂)
      cases hv
      rcases sem_cacheGet.mp hx with ⟨hv, -⟩ | ⟨hv, -⟩ | ⟨e, hv, -⟩
      · rw [hnone] at hv
        cases hv
      · cases hv
      · cases hv
  · exact fun e he => List.mem_cons_of_mem _ he
  · intro q hq
    exact (List.mem_cons.mp hq).resolve_left (by simp)

/-! ### One request -/

section Request

variable {t : ℕ} {q : CodeReq} {c : String}
  {s : World × CodeLog}

/-- The precondition of request `t` for the rest of its program. -/
abbrev codeWp {α : Type} (t : ℕ) (p : M ErrorResponse α)
    (Q : Except (Fault ErrorResponse) α → World × CodeLog → Prop) (s : World × CodeLog) : Prop :=
  p.wp (logged sem LookupAlone t) (fun s => RedeemInv s.1 s.2) (CodeRely t) (Others CodeRely t) Q s

/-- A part of the request that puts no code into the cache keeps what `t` may rely on. -/
theorem codeWp_quiet {α : Type} {p : M ErrorResponse α} {ts : List Table}
    {cs : List (CacheName × Slot)} {P : World × CodeLog → Prop} (hp : Touches ts cs p)
    (hcs : ∀ sl, (.authCodes, sl) ∉ cs) (hP : ∀ s s', P s → CodeRely t s s' → P s') (hs : P s) :
    codeWp t p (fun r s => ∀ a, r = .ok a → P s) s := by
  refine wp_mono (wp_of_within (P := P) hp hP ?_ hs) fun r s h a _ => h
  rintro o ho ⟨w, l⟩ x ⟨w', l'⟩ hI hPs ⟨hx, hC, hl⟩
  simp only at hx hC hl hI
  subst hl
  obtain ⟨hI', hrely⟩ := redeemInv_op hI ho hcs hx hC
  exact ⟨hI', fun t' _ _ => hrely t', hP _ _ hPs (hrely t)⟩

/-- The request has started as `q` and has found the code `c`. -/
def FoundBy (t : ℕ) (c : String) (s : World × CodeLog) : Prop :=
  (∀ q, .start t q ∈ s.2 → q.reqData.code = some c) ∧ Found t c s.2

theorem foundBy_stable {s' : World × CodeLog} (h : FoundBy t c s) (hr : CodeRely t s s') :
    FoundBy t c s' :=
  ⟨fun q hq => h.1 q (hr.start q hq), h.2.mono hr.log⟩

/-- What has to hold when the request ends with a token set. -/
def RedeemPost (t : ℕ) (r : CodeOutcome) (s : World × CodeLog) : Prop :=
  ∀ a, r = .ok a → ∃ c, FoundBy t c s ∧ s.1.cache .authCodes c = none

theorem gone_stable {s' : World × CodeLog} (h : FoundBy t c s ∧ s.1.cache .authCodes c = none)
    (hr : CodeRely t s s') :
    FoundBy t c s' ∧ s'.1.cache .authCodes c = none :=
  ⟨foundBy_stable h.1 hr, hr.gone c h.2⟩

theorem codeWp_delete {code : AuthCode} {client : Client} {a : TokenSet × Headers}
    (hid : code.id = c) (hs : FoundBy t c s) :
    codeWp t (do code.delete; client.updateUsed; return a) (RedeemPost t) s := by
  refine wp_seq (P := fun _ s => FoundBy t c s ∧ s.1.cache .authCodes c = none)
    (CodeRely.refl t) ?_ ?_ (fun e s a h => by cases h)
  · rintro ⟨w, l⟩ hr hI x ⟨w', l'⟩ ⟨hx, hC, hl⟩
    simp only at hx hC hl hI
    subst hl hid
    obtain ⟨hI', hrely⟩ := redeemInv_op (o := .cacheDel _ _) hI (Op.touches_cacheDel _ _) (by simp) hx hC
    refine ⟨hI', fun t' _ _ => hrely t', ?_⟩
    have hfound := foundBy_stable (foundBy_stable hs hr) (hrely t)
    cases x with
    | error e => exact fun s₁ _ _ a h => by cases h
    | ok u =>
        rintro s₁ hr₁ - u' -
        refine gone_stable ⟨hfound, ?_⟩ hr₁
        rcases sem_cacheDel.mp hx with ⟨-, rfl⟩ | ⟨e, h, -⟩
        · simp [World.del_cache]
        · cases h
  · intro u s hs
    refine wp_seq (CodeRely.refl t)
      (codeWp_quiet (Client.updateUsed_touches client) (by simp) (fun _ _ => gone_stable) hs)
      ?_ (fun e s a h => by cases h)
    rintro u s hs s₁ hr hI a -
    exact ⟨c, gone_stable hs hr⟩

theorem codeWp_found {data : AppState} {code : AuthCode} {client : Client} {clientId : String}
    {verifier fingerprint : Option String} {headers : Headers} (hid : code.id = c)
    (hs : FoundBy t c s) :
    codeWp t (do
      checkCode data code clientId verifier
      let user ← User.find code.userId
      let tokenSet ← TokenSet.fromUser data user client fingerprint code.nonce
        (some (Text.join " " code.scopes)) .yes .no
      updateCodeSession code user
      code.delete
      client.updateUsed
      return (tokenSet, headers)) (RedeemPost t) s := by
  have hfail : ∀ e s, RedeemPost t (.error e) s := fun e s a h => by cases h
  refine wp_seq (CodeRely.refl t) (codeWp_quiet (checkCode_touches _ _ _ _) (by simp)
    (fun _ _ => foundBy_stable) hs) (fun _ s hs => ?_) hfail
  refine wp_seq (CodeRely.refl t) (codeWp_quiet (User.find_touches _) (by simp)
    (fun _ _ => foundBy_stable) hs) (fun user s hs => ?_) hfail
  refine wp_seq (CodeRely.refl t) (codeWp_quiet (TokenSet.fromUser_touches _ _ _ _ _ _ _ _)
    (by simp [TokenSet.slots]) (fun _ _ => foundBy_stable) hs) (fun tokenSet s hs => ?_) hfail
  refine wp_seq (CodeRely.refl t) (codeWp_quiet (updateCodeSession_touches _ _) (by simp)
    (fun _ _ => foundBy_stable) hs) (fun _ s hs => ?_) hfail
  exact codeWp_delete hid hs

theorem codeWp_find {idx : String} (hs : ∀ q, .start t q ∈ s.2 → q.reqData.code = some idx) :
    codeWp t (AuthCode.find idx)
      (fun r s => ∀ found, r = .ok found → ∀ code, found = some code →
        code.id = idx ∧ FoundBy t idx s) s := by
  refine wp_cacheGet ?_
  rintro ⟨w, l⟩ hr hI x ⟨w', l'⟩ ⟨hx, hC, hl⟩
  simp only at hx hC hl hI
  subst hl
  obtain ⟨hI', hrely⟩ := redeemInv_op (o := .cacheGet _ _) hI (Op.touches_cacheGet _ _) (by simp) hx hC
  refine ⟨hI', fun t' _ _ => hrely t', ?_⟩
  intro s₁ hr₁ hI₁ found hfound code hcode
  subst hcode
  rcases x with e | - | v
  · cases hfound
  · cases hfound
  · simp only [gotten] at hfound
    split at hfound
    · next code' hv =>
        cases hfound
        rw [CacheVal.authCode?_eq_some] at hv
        subst hv
        have hmem : w.cache .authCodes idx = some (.authCode code) := by
          rcases sem_cacheGet.mp hx with ⟨h, -⟩ | ⟨h, -⟩ | ⟨e, h, -⟩
          · exact (Except.ok.inj h).symm
          · cases h
          · cases h
        refine ⟨hI.keyed _ _ hmem, foundBy_stable ⟨fun q hq => ?_, ?_⟩ hr₁⟩
        · exact hs q (hr.start q ((List.mem_cons.mp hq).resolve_left (by simp)))
        · exact ⟨_, List.mem_cons_self⟩
    · cases hfound

/-- **A whole request**: if it ends with a token set, it has found the code it was
started with, and the code is gone. -/
theorem codeWp_grantTypeCode {data : AppState} (hs : ∀ q', .start t q' ∈ s.2 → q' = q) :
    codeWp t (q.prog data) (RedeemPost t) s := by
  have hfail : ∀ e s, RedeemPost t (.error e) s := fun e s a h => by cases h
  have hstable : ∀ s s' : World × CodeLog, (∀ q', .start t q' ∈ s.2 → q' = q) →
      CodeRely t s s' → ∀ q', .start t q' ∈ s'.2 → q' = q := by
    exact fun s s' h hr q' hq => h q' (hr.start q' hq)
  unfold CodeReq.prog grantTypeCode
  refine wp_seq (P := fun idx s => q.reqData.code = some idx ∧ ∀ q', .start t q' ∈ s.2 → q' = q)
    (CodeRely.refl t) (wp_okOr fun s₁ hr _ r h idx hi => ?_) (fun idx s hs => ?_) hfail
  · rcases h with ⟨-, rfl⟩ | ⟨idx', h, rfl⟩
    · cases hi
    · cases hi
      exact ⟨h, hstable _ _ hs hr⟩
  obtain ⟨hidx, hs⟩ := hs
  refine wp_seq (CodeRely.refl t) (codeWp_quiet (touches_answer _ : Touches [] [] _) (by simp)
    hstable hs) (fun ⟨clientId, secret⟩ s hs => ?_) hfail
  refine wp_seq (CodeRely.refl t) (codeWp_quiet (codeClient_touches _ _ _ _) (by simp) hstable hs)
    (fun ⟨client, fingerprint, headers⟩ s hs => ?_) hfail
  refine wp_seq (CodeRely.refl t) (codeWp_find fun q' hq => by rw [hs q' hq, hidx])
    (fun found s hs => ?_) hfail
  refine wp_seq (P := fun code s => code.id = idx ∧ FoundBy t idx s) (CodeRely.refl t)
    (wp_okOr fun s₁ hr _ r h code hc => ?_) (fun code s hs => codeWp_found hs.1 hs.2) hfail
  rcases h with ⟨-, rfl⟩ | ⟨code', h, rfl⟩
  · cases hc
  · cases hc
    obtain ⟨hid, hfound⟩ := hs code h
    exact ⟨hid, foundBy_stable hfound hr⟩

end Request

/-! ### Every run -/

theorem redeemInv_done {r : CodeOutcome} (hI : RedeemInv w l) (hrun : Log.Running t l)
    (hpost : RedeemPost t r (w, l)) : RedeemInv w (.done t r :: l) := by
  -- the new log has a redeemer more only if the request ends with a token set
  have hnew : ∀ {t' c}, Redeemed t' c (.done t r :: l) → Redeemed t' c l ∨
      t' = t ∧ Found t c l ∧ w.cache .authCodes c = none := by
    rintro t' c ⟨⟨q, hq, hc⟩, a, ha⟩
    have hstarted : .start t' q ∈ l := (List.mem_cons.mp hq).resolve_left (by simp)
    rcases List.mem_cons.mp ha with ha' | ha'
    · cases ha'
      obtain ⟨c', ⟨hstart, hfound⟩, hgone⟩ := hpost a rfl
      obtain rfl : c' = c := Option.some.inj ((hstart q hstarted).symm.trans hc)
      exact .inr ⟨rfl, hfound, hgone⟩
    · exact .inl ⟨⟨q, hstarted, hc⟩, a, ha'⟩
  have hold : ∀ {t'}, Log.Running t' (.done t r :: l) → Log.Running t' l ∧ t' ≠ t := by
    rintro t' ⟨⟨q, hq⟩, hno⟩
    refine ⟨⟨⟨q, (List.mem_cons.mp hq).resolve_left (by simp)⟩, fun a ha => ?_⟩, ?_⟩
    · exact hno a (List.mem_cons_of_mem _ ha)
    · rintro rfl
      exact hno r List.mem_cons_self
  refine ⟨hI.keyed, ?_, ?_, ?_, ?_⟩
  · intro t' c h
    rcases hnew h with h | ⟨-, -, h⟩
    · exact hI.gone t' c h
    · exact h
  · intro t₁ t₂ c h₁ h₂
    rcases hnew h₁ with hr₁ | ⟨rfl, hf, -⟩
    · rcases hnew h₂ with hr₂ | ⟨rfl, hf, -⟩
      · exact hI.once t₁ t₂ c hr₁ hr₂
      · exact absurd hr₁ (hI.pending t₂ t₁ c hf hrun)
    · rcases hnew h₂ with hr₂ | ⟨rfl, -, -⟩
      · exact absurd hr₂ (hI.pending t₁ t₂ c hf hrun)
      · rfl
  · intro t₁ t₂ c h₁ hr₁ h₂ hr₂
    exact hI.alone t₁ t₂ c (found_done.mp h₁) (hold hr₁).1 (found_done.mp h₂) (hold hr₂).1
  · intro t₁ t₂ c h₁ hr₁ h₂
    obtain ⟨hr, hne⟩ := hold hr₁
    rcases hnew h₂ with h₂ | ⟨rfl, hf, -⟩
    · exact hI.pending t₁ t₂ c (found_done.mp h₁) hr h₂
    · exact hne (hI.alone t₁ t₂ c (found_done.mp h₁) hr hf hrun)

theorem redeemInv_start {q : CodeReq} (hI : RedeemInv w l) (hf : Log.Fresh t l) :
    RedeemInv w (.start t q :: l) := by
  have hfound : ∀ {t' c}, Found t' c l → t' ≠ t := by
    rintro t' c ⟨v, hv⟩ rfl
    exact hf _ hv rfl
  have hold : ∀ {t'}, Log.Running t' (.start t q :: l) → t' ≠ t → Log.Running t' l := by
    rintro t' ⟨⟨q', hq⟩, hno⟩ hne
    refine ⟨⟨q', (List.mem_cons.mp hq).resolve_left fun h => ?_⟩, fun a ha => ?_⟩
    · cases h
      exact hne rfl
    · exact hno a (List.mem_cons_of_mem _ ha)
  refine ⟨hI.keyed, ?_, ?_, ?_, ?_⟩
  · intro t' c h
    exact hI.gone t' c ((redeemed_start hf).mp h)
  · intro t₁ t₂ c h₁ h₂
    exact hI.once t₁ t₂ c ((redeemed_start hf).mp h₁) ((redeemed_start hf).mp h₂)
  · intro t₁ t₂ c h₁ hr₁ h₂ hr₂
    have h₁ := found_start.mp h₁
    have h₂ := found_start.mp h₂
    exact hI.alone t₁ t₂ c h₁ (hold hr₁ (hfound h₁)) h₂ (hold hr₂ (hfound h₂))
  · intro t₁ t₂ c h₁ hr₁ h₂
    have h₁ := found_start.mp h₁
    exact hI.pending t₁ t₂ c h₁ (hold hr₁ (hfound h₁)) ((redeemed_start hf).mp h₂)

/-- **A code is redeemed at most once**, in every interleaving of token requests in
which a code is found only by one request at a time. -/
theorem redeemed_at_most_once (data : AppState) {w₀ : World} (hw : CodesKeyed w₀)
    {P : Pool CodeReq Op Op.Res World (Fault ErrorResponse) (TokenSet × Headers)}
    (h : Run (CodeReq.prog data) sem LookupAlone (init w₀) P) {c : String} {t t' : ℕ}
    (ht : Redeemed t c P.log) (ht' : Redeemed t' c P.log) : t = t' := by
  have hinit : RedeemInv w₀ [] :=
    ⟨hw, by simp [Redeemed], by simp [Redeemed], by simp [Found], by simp [Found]⟩
  have key := Run.sound (I := fun s => RedeemInv s.1 s.2) (L := CodeRely) (F := RedeemPost)
    CodeRely.refl (fun _ _ _ _ => CodeRely.trans) hinit ?_ ?_ h
  · exact key.1.once t t' c ht ht'
  · intro w l t q hI hf _
    refine ⟨redeemInv_start hI hf, fun t' hne hr => ⟨?_, ?_, fun _ h => h⟩, ?_⟩
    · exact fun e he => List.mem_cons_of_mem _ he
    · intro q' hq
      refine (List.mem_cons.mp hq).resolve_left fun h => ?_
      cases h
      exact hne rfl
    · exact codeWp_grantTypeCode fun q' hq => (start_mem_fresh hf).mp hq
  · intro w l t r hI hrun hpost _
    refine ⟨redeemInv_done hI hrun hpost, fun t' hne hr => ⟨?_, ?_, fun _ h => h⟩⟩
    · exact fun e he => List.mem_cons_of_mem _ he
    · exact fun q hq => (List.mem_cons.mp hq).resolve_left (by simp)

/-! ### Two requests with one code -/

def sampleCode : AuthCode where
  id := "code"
  exp := 160
  clientId := "app"
  userId := "alice"
  sessionId := none
  challenge := none
  challengeMethod := none
  nonce := none
  scopes := ["openid"]

/-- A code is there to be redeemed, and everything it takes is cached. -/
def codeWorld : World where
  clock := 100000
  issued := ["code"]
  db _ := []
  cache
    | .authCodes, "code" => some (.authCode sampleCode)
    | .c12hr, "client_app" => some (.client sampleClient)
    | .c12hr, "jwk_latest_EdDSA" => some (.jwkKeyPair ⟨"kid", .edDSA, []⟩)
    | .users, "users__alice" => some (.user sampleUser)
    | _, _ => none

theorem codesKeyed_codeWorld : CodesKeyed codeWorld := by
  intro k c h
  simp only [codeWorld] at h
  split at h <;> cases h
  rfl

/-- `POST /oidc/token` with the code. -/
def codeReq : CodeReq where
  req := { (default : HttpRequest) with path := "/auth/v1/oidc/token" }
  reqData := { (default : TokenRequest) with
    grantType := "authorization_code", code := some "code", clientId := some "app" }

/-- The tokens that both requests get. -/
def codeTokens : TokenSet where
  accessToken := "access token"
  tokenType := .bearer
  idToken := some "id token"
  expiresIn := 1800
  refreshToken := none

/-- The operations after the lookup. -/
def redeemMoves {Q : Type} (t : ℕ) : List (Move Q Choice) :=
  [.op t (.time 100000), .op t .ok, .op t (.time 100000), .op t .ok, .op t (.time 100000),
    .op t (.time 100000), .op t .ok, .op t .ok, .done t]

theorem redeemed_at_most_once_alice :
    ∃ P, Run (CodeReq.prog sampleState) sem LookupAlone (init codeWorld) P ∧
      Redeemed 0 "code" P.log ∧ ∀ t, Redeemed t "code" P.log → t = 0 := by
  obtain ⟨P, hrun, hlog⟩ := exists_run_of_moves (C := LookupAlone) (CodeReq.prog sampleState) Op.run
    Solo codeWorld
    ([.start 0 codeReq, .op 0 .ok, .op 0 .ok] ++ redeemMoves 0 ++
      [.start 1 codeReq, .op 1 .ok, .op 1 .ok, .done 1])
    (fun P => decide (Log.startOf 0 P.log = some codeReq ∧
      Log.doneOf 0 P.log = some (.ok (codeTokens, [])) ∧
      Log.doneOf 1 P.log = some (.error (err .unauthorized
        "'auth_code' could not be found inside the cache"))))
    (by decide +kernel)
    (by
      intro w l e h t c v he t' hne _
      subst he
      exact not_running_of_solo h hne)
  obtain ⟨hstart, hdone, -⟩ := of_decide_eq_true hlog
  have h₀ : Redeemed 0 "code" P.log :=
    ⟨⟨_, Log.mem_of_startOf hstart, rfl⟩, _, Log.mem_of_doneOf hdone⟩
  exact ⟨P, hrun, h₀, fun t ht => redeemed_at_most_once sampleState codesKeyed_codeWorld hrun ht h₀⟩

/-- Both requests find the code before one of them deletes it, and both get tokens. -/
theorem redeemed_twice :
    ¬ ∀ (data : AppState) (w₀ : World)
        (P : Pool CodeReq Op Op.Res World (Fault ErrorResponse) (TokenSet × Headers)),
      CodesKeyed w₀ → Run (CodeReq.prog data) sem (fun _ _ _ => True) (init w₀) P →
      ∀ c t t', Redeemed t c P.log → Redeemed t' c P.log → t = t' := by
  intro h
  obtain ⟨P, hrun, hlog⟩ := exists_run_of_moves (C := fun _ _ _ => True)
    (CodeReq.prog sampleState) Op.run (fun _ _ _ => true) codeWorld
    ([.start 0 codeReq, .start 1 codeReq, .op 0 .ok, .op 0 .ok, .op 1 .ok, .op 1 .ok] ++
      redeemMoves 0 ++ redeemMoves 1)
    (fun P => decide (Log.startOf 0 P.log = some codeReq ∧ Log.startOf 1 P.log = some codeReq ∧
      Log.doneOf 0 P.log = some (.ok (codeTokens, [])) ∧
      Log.doneOf 1 P.log = some (.ok (codeTokens, []))))
    (by decide +kernel) (fun _ _ _ _ => trivial)
  obtain ⟨hs₀, hs₁, hd₀, hd₁⟩ := of_decide_eq_true hlog
  have h₀ : Redeemed 0 "code" P.log :=
    ⟨⟨_, Log.mem_of_startOf hs₀, rfl⟩, _, Log.mem_of_doneOf hd₀⟩
  have h₁ : Redeemed 1 "code" P.log :=
    ⟨⟨_, Log.mem_of_startOf hs₁, rfl⟩, _, Log.mem_of_doneOf hd₁⟩
  exact absurd (h sampleState codeWorld P codesKeyed_codeWorld hrun "code" 0 1 h₀ h₁) (by decide)

end Rauthy
