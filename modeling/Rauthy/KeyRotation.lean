/-
Rauthy/KeyRotation.lean

The keys that sign the tokens over time: `rotate_jwks` of `rauthy-service/src/auth.rs`, the
scheduler `jwks_cleanup` of `rauthy-main/src/schedulers.rs`, and `JWKS::find_pk`.  The key
material of a rotation is given, as the library has generated it.

Both `find_latest` and the cleanup sort the keys by their creation, the oldest first, and
take the first one of an algorithm for its latest.

Main results: `signed_with_newest_iff` on which key signs, and `cleanedUp_iff` on what the
cleanup removes.
-/
import Rauthy.Auth

namespace Rauthy

open Prog

/-! ### The model -/

namespace CacheVal

def jwks? : CacheVal → Option (List JWKSPublicKey)
  | jwks v => some v
  | _ => none

end CacheVal

/-- `JWKSPublicKey::from_key_pair`; a key that is not in DER format is a panic. -/
def JWKSPublicKey.fromKeyPair (data : AppState) (kp : JwkKeyPair) : M ErrorResponse JWKSPublicKey :=
  let rsa : M ErrorResponse JWKSPublicKey := do
    -- the source parses keys for RS512 as keys for RS384
    let alg := if kp.typ = .rs512 then .rs384 else kp.typ
    let (n, e) ← unwrap "called `Result::unwrap()` on an `Err` value"
      (data.rsaComponents alg kp.bytes)
    return { kty := .rsa, alg := some kp.typ, crv := none, kid := some kp.kid,
             n := some (base64UrlEncode data n), e := some (base64UrlEncode data e), x := none }
  match kp.typ with
  | .edDSA => do
      let x ← unwrap "called `Result::unwrap()` on an `Err` value" (data.ed25519PublicKey kp.bytes)
      return { kty := .okp, alg := some kp.typ, crv := some "Ed25519", kid := some kp.kid,
               n := none, e := none, x := some (base64UrlEncode data x) }
  | _ => rsa

/-- The published keys of these rows. -/
def publicKeys (data : AppState) : List Jwk → M ErrorResponse (List JWKSPublicKey)
  | [] => return []
  | cert :: certs => do
      let kp ← answer (JwkKeyPair.decrypt data cert cert.signature)
      let key ← JWKSPublicKey.fromKeyPair data kp
      let keys ← publicKeys data certs
      return key :: keys

/-- `JWKS::find_pk` -/
def JWKS.findPk (data : AppState) : M ErrorResponse (List JWKSPublicKey) :=
  cached .c12hr "jkws_" CacheVal.jwks? .jwks (do
    let res ← select .jwks fun _ => true
    publicKeys data res)

/-- One key of a rotation, with the key pair that was generated. -/
def rotateJwk (data : AppState) (alg : JwkKeyPairAlg) (der : Except ErrorResponse Bytes) :
    M ErrorResponse Unit := do
  let bytes ← answer der
  let kid ← getRand 24
  let jwk ← answer (data.encrypt bytes)
  let now ← unixTimestamp
  execute [.insert .jwks
    { kid, createdAt := now, signature := alg, encKeyId := data.encKeyActive, jwk }]

/-- `clear all latest_jwk from cache` -/
def clearLatest (alg : JwkKeyPairAlg) : M ErrorResponse Unit :=
  cacheDel .c12hr ("jwk_latest_" ++ alg.asStr)

def rotateJwks (data : AppState) (gen : JwkKeyPairAlg → Except ErrorResponse Bytes) :
    M ErrorResponse Unit := do
  rotateJwk data .rs256 (gen .rs256)
  rotateJwk data .rs384 (gen .rs384)
  rotateJwk data .rs512 (gen .rs512)
  rotateJwk data .edDSA (gen .edDSA)
  clearLatest .rs256
  clearLatest .rs384
  clearLatest .rs512
  clearLatest .edDSA
  cacheDel .c12hr "jkws_"

/-- `order by created_at asc`, in the order of the table if this is the same -/
def byCreation (jwks : List Jwk) : List Jwk := jwks.insertionSort fun a b => a.createdAt ≤ b.createdAt

/-- The keys that the cleanup deletes: `found` are the algorithms that it has seen. -/
def toDelete (threshold : Int) : List JwkKeyPairAlg → List Jwk → List String
  | _, [] => []
  | found, jwk :: jwks =>
      if jwk.signature ∈ found then
        if jwk.createdAt < threshold then jwk.kid :: toDelete threshold found jwks
        else toDelete threshold found jwks
      else toDelete threshold (jwk.signature :: found) jwks

def deleteJwk (kid : String) : M ErrorResponse Unit := do
  match ← attempt (execute [.delete .jwks fun j => j.kid == kid]) with
  | .error _ => return ()
  | .ok _ => ignoreErr (cacheDel .c12hr ("jwk_kid_" ++ kid))

/-- The keys of the last 90 days are kept. -/
def retention : Int := 3600 * 24 * 90

/-- One run of `jwks_cleanup` -/
def jwksCleanup : M ErrorResponse Unit := do
  let now ← unixTimestamp
  match ← attempt (select .jwks fun _ => true) with
  | .error _ => return ()
  | .ok rows => forEach deleteJwk (toDelete (now - retention) [] (byCreation rows))

/-! ### The first key of an algorithm -/

section First

variable {jwks : List Jwk} {a b : Jwk}

/-- The keys of an algorithm. -/
def keysOf (alg : JwkKeyPairAlg) (jwks : List Jwk) : List Jwk := jwks.filter (·.signature = alg)

theorem mem_keysOf {alg : JwkKeyPairAlg} : a ∈ keysOf alg jwks ↔ a ∈ jwks ∧ a.signature = alg := by
  unfold keysOf
  rw [List.mem_filter, decide_eq_true_eq]

theorem mem_byCreation : a ∈ byCreation jwks ↔ a ∈ jwks := List.mem_insertionSort _

/-- The first key of a list in the order of creation. -/
def first (jwks : List Jwk) : Option Jwk := (byCreation jwks).head?

theorem first_cons : first (a :: jwks) =
    match first jwks with
    | none => some a
    | some b => if a.createdAt ≤ b.createdAt then some a else some b := by
  unfold first byCreation
  rw [List.insertionSort_cons]
  cases h : jwks.insertionSort fun a b => a.createdAt ≤ b.createdAt with
  | nil => rfl
  | cons b l =>
      rw [List.orderedInsert_cons]
      by_cases hab : a.createdAt ≤ b.createdAt
      · simp [hab]
      · simp [hab]

theorem first_eq_none : first jwks = none ↔ jwks = [] := by
  cases jwks with
  | nil => exact ⟨fun _ => rfl, fun _ => rfl⟩
  | cons a l =>
      rw [first_cons]
      cases first l with
      | none => simp
      | some b => by_cases h : a.createdAt ≤ b.createdAt <;> simp [h]

theorem first_mem (h : first jwks = some a) : a ∈ jwks :=
  mem_byCreation.mp (List.mem_of_head? h)

theorem first_le (h : first jwks = some a) (hb : b ∈ jwks) : a.createdAt ≤ b.createdAt := by
  induction jwks generalizing a with
  | nil => cases hb
  | cons c l ih =>
      rw [first_cons] at h
      rcases hl : first l with - | d
      · rw [hl] at h
        cases h
        rw [first_eq_none] at hl
        rw [hl, List.mem_singleton] at hb
        rw [hb]
      · rw [hl] at h
        simp only at h
        by_cases hcd : c.createdAt ≤ d.createdAt
        · rw [if_pos hcd] at h
          cases h
          rcases List.mem_cons.mp hb with rfl | hb
          · exact Int.le_refl _
          · exact Int.le_trans hcd (ih hl hb)
        · rw [if_neg hcd] at h
          cases h
          rcases List.mem_cons.mp hb with rfl | hb
          · omega
          · exact ih hl hb

theorem first_append (h : first jwks = some a) (hb : ∀ c ∈ jwks, c.createdAt ≤ b.createdAt) :
    first (jwks ++ [b]) = some a := by
  induction jwks generalizing a with
  | nil => cases h
  | cons c l ih =>
      rw [first_cons] at h
      rw [List.cons_append, first_cons]
      rcases hl : first l with - | d
      · rw [hl] at h
        rw [first_eq_none] at hl
        subst hl
        have hcb := hb c List.mem_cons_self
        simpa [first_cons, first_eq_none.mpr, hcb] using h
      · rw [ih hl fun c hc => hb c (List.mem_cons_of_mem _ hc)]
        rw [hl] at h
        exact h

theorem first_filter {q : Jwk → Bool} (h : first jwks = some a) (hq : q a = true) :
    first (jwks.filter q) = some a := by
  induction jwks generalizing a with
  | nil => cases h
  | cons c l ih =>
      rw [first_cons] at h
      rcases hl : first l with - | d
      · rw [hl] at h
        cases h
        rw [first_eq_none] at hl
        subst hl
        simp [hq, first_cons, first_eq_none.mpr]
      · rw [hl] at h
        simp only at h
        by_cases hcd : c.createdAt ≤ d.createdAt
        · rw [if_pos hcd] at h
          cases h
          rw [List.filter_cons_of_pos hq, first_cons]
          rcases hf : first (l.filter q) with - | d'
          · rfl
          · have hle := first_le hl (List.mem_of_mem_filter (first_mem hf))
            simp only
            rw [if_pos (Int.le_trans hcd hle)]
        · rw [if_neg hcd] at h
          cases h
          by_cases hqc : q c = true
          · rw [List.filter_cons_of_pos hqc, first_cons, ih hl hq]
            simp only
            rw [if_neg hcd]
          · rw [List.filter_cons_of_neg hqc]
            exact ih hl hq

/-- Sorting keeps the keys of an algorithm in their order. -/
theorem filter_orderedInsert {q : Jwk → Bool}
    (hs : jwks.Pairwise fun a b => a.createdAt ≤ b.createdAt) :
    (jwks.orderedInsert (fun a b => a.createdAt ≤ b.createdAt) a).filter q =
      if q a then (jwks.filter q).orderedInsert (fun a b => a.createdAt ≤ b.createdAt) a
      else jwks.filter q := by
  induction jwks with
  | nil => by_cases ha : q a = true <;> simp [ha]
  | cons b l ih =>
      obtain ⟨hb, hl⟩ := List.pairwise_cons.mp hs
      rw [List.orderedInsert_cons]
      by_cases hab : a.createdAt ≤ b.createdAt
      · rw [if_pos hab]
        by_cases ha : q a = true
        · rw [List.filter_cons_of_pos ha, if_pos ha]
          have hle : ∀ c ∈ (b :: l).filter q, a.createdAt ≤ c.createdAt := by
            intro c hc
            rcases List.mem_cons.mp (List.mem_of_mem_filter hc) with rfl | hc
            · exact hab
            · exact Int.le_trans hab (hb c hc)
          cases hf : (b :: l).filter q with
          | nil => rfl
          | cons c m =>
              rw [hf] at hle
              rw [List.orderedInsert_cons, if_pos (hle c List.mem_cons_self)]
        · rw [List.filter_cons_of_neg ha, if_neg ha]
      · rw [if_neg hab]
        by_cases hqb : q b = true
        · rw [List.filter_cons_of_pos hqb, List.filter_cons_of_pos hqb, ih hl]
          by_cases ha : q a = true
          · rw [if_pos ha, if_pos ha, List.orderedInsert_cons, if_neg hab]
          · rw [if_neg ha, if_neg ha]
        · rw [List.filter_cons_of_neg hqb, List.filter_cons_of_neg hqb, ih hl]

theorem filter_byCreation (q : Jwk → Bool) : (byCreation jwks).filter q = byCreation (jwks.filter q) := by
  induction jwks with
  | nil => rfl
  | cons a l ih =>
      have hsorted : (byCreation l).Pairwise fun a b => a.createdAt ≤ b.createdAt := by
        have : Std.Total fun a b : Jwk => a.createdAt ≤ b.createdAt := ⟨fun a b => Int.le_total _ _⟩
        have : IsTrans Jwk fun a b => a.createdAt ≤ b.createdAt := ⟨fun a b c => Int.le_trans⟩
        exact List.pairwise_insertionSort _ l
      show ((byCreation l).orderedInsert _ a).filter q = byCreation ((a :: l).filter q)
      rw [filter_orderedInsert hsorted, ih]
      by_cases ha : q a = true
      · rw [if_pos ha, List.filter_cons_of_pos ha]
        rfl
      · rw [if_neg ha, List.filter_cons_of_neg ha]

theorem find_byCreation (alg : JwkKeyPairAlg) :
    (byCreation jwks).find? (fun k => k.signature = alg) = first (keysOf alg jwks) := by
  unfold first keysOf
  rw [← filter_byCreation, List.head?_filter]

end First

/-! ### What the cleanup deletes -/

section Cleanup

variable {w w₁ w' : World} {limit : Int} {k k' : Jwk} {jwks : List Jwk}
  {kid : String} {kids : List String} {ms : Int}
  {found : List JwkKeyPairAlg}

theorem toDelete_subset (h : kid ∈ toDelete limit found jwks) :
    ∃ k ∈ jwks, k.kid = kid := by
  induction jwks generalizing found with
  | nil => cases h
  | cons a l ih =>
      have hrest : ∀ {found}, kid ∈ toDelete limit found l → ∃ k ∈ a :: l, k.kid = kid := by
        intro found h
        obtain ⟨k, hk, hkid⟩ := ih h
        exact ⟨k, List.mem_cons_of_mem _ hk, hkid⟩
      unfold toDelete at h
      split at h
      · split at h
        · rcases List.mem_cons.mp h with rfl | h
          · exact ⟨a, List.mem_cons_self, rfl⟩
          · exact hrest h
        · exact hrest h
      · exact hrest h

/-- The keys that are deleted are old, and not the first of their algorithm. -/
theorem mem_toDelete (hn : (jwks.map Jwk.kid).Nodup) (hk : k ∈ jwks) :
    k.kid ∈ toDelete limit found jwks ↔ k.createdAt < limit ∧
      (k.signature ∈ found ∨ jwks.find? (fun j => j.signature = k.signature) ≠ some k) := by
  induction jwks generalizing found with
  | nil => cases hk
  | cons a l ih =>
      obtain ⟨hfresh, hl⟩ := List.nodup_cons.mp hn
      have hself : ∀ {found}, a.kid ∉ toDelete limit found l := by
        intro found h
        obtain ⟨j, hj, hjid⟩ := toDelete_subset h
        exact hfresh (List.mem_map.mpr ⟨j, hj, hjid⟩)
      unfold toDelete
      rcases List.mem_cons.mp hk with rfl | hk
      · -- the key at hand
        have hfind : (k :: l).find? (fun j => j.signature = k.signature) = some k := by simp
        rw [hfind]
        by_cases hf : k.signature ∈ found
        · rw [if_pos hf]
          by_cases hold : k.createdAt < limit
          · rw [if_pos hold]
            exact ⟨fun _ => ⟨hold, .inl hf⟩, fun _ => List.mem_cons_self⟩
          · rw [if_neg hold]
            exact ⟨fun h => absurd h hself, fun h => absurd h.1 hold⟩
        · rw [if_neg hf]
          exact ⟨fun h => absurd h hself, fun h => (h.2.elim hf fun h => h rfl).elim⟩
      · -- a later one
        have hne : k.kid ≠ a.kid := fun h => hfresh (List.mem_map.mpr ⟨k, hk, h⟩)
        have hka : a ≠ k := fun h => hne (by rw [h])
        by_cases hf : a.signature ∈ found
        · have hiff : k.signature ∈ found ∨ (a :: l).find? (fun j => j.signature = k.signature) ≠
              some k ↔ k.signature ∈ found ∨ l.find? (fun j => j.signature = k.signature) ≠
              some k := by
            by_cases hsig : a.signature = k.signature
            · rw [← hsig]
              exact ⟨fun _ => .inl hf, fun _ => .inl hf⟩
            · rw [List.find?_cons_of_neg (by simpa using hsig)]
          rw [if_pos hf, hiff, ← ih hl hk]
          by_cases hold : a.createdAt < limit
          · rw [if_pos hold, List.mem_cons]
            exact ⟨fun h => h.resolve_left hne, .inr⟩
          · rw [if_neg hold]
        · rw [if_neg hf, ih hl hk, List.mem_cons]
          by_cases hsig : a.signature = k.signature
          · have hfind : (a :: l).find? (fun j => j.signature = k.signature) ≠ some k := by
              rw [List.find?_cons_of_pos (by simpa using hsig)]
              exact fun h => hka (Option.some.inj h)
            exact ⟨fun h => ⟨h.1, .inr hfind⟩, fun h => ⟨h.1, .inl (.inl hsig.symm)⟩⟩
          · rw [List.find?_cons_of_neg (by simpa using hsig)]
            have hsig' : k.signature ≠ a.signature := fun h => hsig h.symm
            simp only [hsig', false_or]

/-- The primary key of the table. -/
def UniqueKids (w : World) : Prop := ((w.db .jwks).map Jwk.kid).Nodup

instance (w : World) : Decidable (UniqueKids w) := inferInstanceAs (Decidable (List.Nodup _))

theorem UniqueKids.eq (hu : UniqueKids w) (hk : k ∈ w.db .jwks) (hk' : k' ∈ w.db .jwks)
    (h : k.kid = k'.kid) : k = k' :=
  List.inj_on_of_nodup_map hu hk hk' h

/-- The key is older than the limit, and not the first of its algorithm. -/
def Doomed (w : World) (limit : Int) (k : Jwk) : Prop :=
  k ∈ w.db .jwks ∧ k.createdAt < limit ∧ first (keysOf k.signature (w.db .jwks)) ≠ some k

theorem mem_toDelete_byCreation (hu : UniqueKids w) (hk : k ∈ w.db .jwks) :
    k.kid ∈ toDelete limit [] (byCreation (w.db .jwks)) ↔ Doomed w limit k := by
  have hn : ((byCreation (w.db .jwks)).map Jwk.kid).Nodup :=
    (((List.perm_insertionSort _ _).map Jwk.kid).nodup_iff).mpr hu
  rw [mem_toDelete hn (mem_byCreation.mpr hk), find_byCreation]
  unfold Doomed
  simp [hk]

/-- The keys with these ids are gone, and of the caches at most entries of single keys. -/
structure Removed (kids : List String) (w w' : World) : Prop where
  rows : w'.db .jwks = (w.db .jwks).filter fun j => j.kid ∉ kids
  cache : ∀ c k, (∀ kid, k ≠ "jwk_kid_" ++ kid) → w'.cache c k = w.cache c k
  clock : w'.clock = w.clock

theorem Removed.refl (w : World) : Removed [] w w :=
  ⟨by simp, fun _ _ _ => rfl, rfl⟩

theorem Removed.trans {kids' : List String} (h : Removed kids w w₁) (h' : Removed kids' w₁ w') :
    Removed (kids ++ kids') w w' := by
  refine ⟨?_, fun c k hk => (h'.cache c k hk).trans (h.cache c k hk), h'.clock.trans h.clock⟩
  rw [h'.rows, h.rows, List.filter_filter]
  refine List.filter_congr fun j _ => ?_
  simp [List.mem_append, Bool.and_comm]

theorem removed_delete :
    Removed [kid] w { w with db := (Function.update w.db .jwks
      ((w.db .jwks).filter fun r => !(r.kid == kid))) } := by
  refine ⟨?_, fun _ _ _ => rfl, rfl⟩
  show Function.update w.db .jwks _ .jwks = _
  rw [Function.update_self]
  refine List.filter_congr fun j _ => ?_
  rw [beq_eq_decide]
  simp

theorem removed_del (h : Removed kids w w₁) :
    Removed kids w (w₁.del .c12hr ("jwk_kid_" ++ kid)) := by
  refine ⟨h.rows, fun c k hk => ?_, h.clock⟩
  rw [World.del_cache, if_neg fun h => hk kid h.2]
  exact h.cache c k hk

theorem outcomes_deleteJwk :
    Outcomes sem (deleteJwk kid) w fun _ w' => Removed [] w w' ∨ Removed [kid] w w' := by
  refine outcomes_bind (outcomes_tried (outcomes_call fun x w₁ hx => ?_))
  rcases sem_execute.mp hx with ⟨e, rfl, rfl⟩ | ⟨db, ⟨hdb, -⟩, rfl⟩
  · exact outcomes_fail (outcomes_ret (.inl (Removed.refl _)))
  have hdb' : db = Function.update w.db .jwks ((w.db .jwks).filter fun r => !(r.kid == kid)) := by
    simpa [applyAll, DbWrite.apply] using hdb.symm
  subst hdb'
  refine outcomes_answer (fun a _ => ?_) fun e _ => outcomes_ret (.inr removed_delete)
  refine outcomes_bind (outcomes_tried (outcomes_call fun y w₂ hy => ?_))
  have hw₂ : Removed [kid] w w₂ := by
    rcases sem_cacheDel.mp hy with ⟨-, rfl⟩ | ⟨e, -, rfl | rfl⟩
    · exact removed_del removed_delete
    · exact removed_delete
    · exact removed_del removed_delete
  exact outcomes_answer (fun _ _ => outcomes_ret (.inr hw₂)) fun _ _ => outcomes_ret (.inr hw₂)

theorem outcomes_deleteJwks (kids : List String) :
    Outcomes sem (forEach deleteJwk kids) w fun _ w' => ∃ kids' ⊆ kids, Removed kids' w w' := by
  induction kids generalizing w with
  | nil => exact outcomes_ret ⟨[], List.nil_subset _, Removed.refl w⟩
  | cons kid kids ih =>
      refine outcomes_bind (outcomes_mono outcomes_deleteJwk fun r w₁ hw₁ => ?_)
      have hfst : ∃ kids' ⊆ [kid], Removed kids' w w₁ :=
        hw₁.elim (fun h => ⟨[], List.nil_subset _, h⟩) fun h => ⟨[kid], List.Subset.refl _, h⟩
      obtain ⟨k₁, hk₁, hr₁⟩ := hfst
      have hsub : k₁ ⊆ kid :: kids := fun x hx => List.mem_cons.mpr
        (.inl (List.mem_singleton.mp (hk₁ hx)))
      rcases r with e | u
      · exact ⟨k₁, hsub, hr₁⟩
      · refine outcomes_mono ih fun r w₂ ⟨k₂, hk₂, hr₂⟩ => ⟨k₁ ++ k₂, ?_, hr₁.trans hr₂⟩
        exact List.append_subset.mpr ⟨hsub, fun x hx => List.mem_cons_of_mem _ (hk₂ hx)⟩

theorem outcomes_jwksCleanup :
    Outcomes sem jwksCleanup w fun _ w' => w.clock ≤ w'.clock ∧
      ∃ kids ⊆ toDelete (w'.clock / 1000 - retention) [] (byCreation (w.db .jwks)),
        Removed kids { w with clock := w'.clock } w' := by
  refine outcomes_bind (outcomes_bind (outcomes_call fun ms w₁ hms => ?_))
  obtain ⟨hle, rfl⟩ := sem_now.mp hms
  refine outcomes_ret (outcomes_ret ?_)
  refine outcomes_bind (outcomes_tried (outcomes_call fun x w₂ hx => ?_))
  obtain ⟨rfl, rfl | ⟨e, rfl⟩⟩ := sem_select.mp hx
  · refine outcomes_ret (outcomes_mono (outcomes_deleteJwks _) fun r w₃ ⟨kids, hkids, hr⟩ => ?_)
    rw [List.filter_true] at hkids
    have hclock : w₃.clock = ms := hr.clock
    rw [hclock]
    exact ⟨hle, kids, hkids, hr⟩
  · exact outcomes_fail (outcomes_ret ⟨hle, [], List.nil_subset _, Removed.refl _⟩)

theorem exists_deleteJwks (kids : List String) :
    ∃ w', Exec sem (forEach deleteJwk kids) w (.ok ()) w' ∧ Removed kids w w' := by
  induction kids generalizing w with
  | nil => exact ⟨w, ⟨rfl, rfl⟩, Removed.refl w⟩
  | cons kid kids ih =>
      have hone : ∃ w₁, Exec sem (deleteJwk kid) w (.ok ()) w₁ ∧ Removed [kid] w w₁ := by
        refine ⟨_, exec_bind_ok.mpr ⟨.ok (), _, exec_tried.mpr (exec_execute.mpr ⟨_, ⟨rfl, fun h => h⟩, rfl⟩),
          exec_bind_ok.mpr ⟨.ok (), _, exec_tried.mpr (exec_cacheDel.mpr rfl), rfl, rfl⟩⟩, ?_⟩
        exact removed_del removed_delete
      obtain ⟨w₁, hx₁, hr₁⟩ := hone
      obtain ⟨w₂, hx₂, hr₂⟩ := ih (w := w₁)
      exact ⟨w₂, exec_bind_ok.mpr ⟨(), w₁, hx₁, hx₂⟩, hr₁.trans hr₂⟩

theorem exists_jwksCleanup (h : w.clock ≤ ms) :
    ∃ w', Exec sem jwksCleanup w (.ok ()) w' ∧
      Removed (toDelete (ms / 1000 - retention) [] (byCreation (w.db .jwks)))
        { w with clock := ms } w' := by
  obtain ⟨w', hx, hr⟩ := exists_deleteJwks (w := { w with clock := ms })
    (toDelete (ms / 1000 - retention) [] (byCreation (w.db .jwks)))
  refine ⟨w', ?_, hr⟩
  refine exec_bind_ok.mpr ⟨_, _, exec_unixTimestamp.mpr ⟨ms, rfl, h, rfl⟩, ?_⟩
  refine exec_bind_ok.mpr ⟨.ok (w.db .jwks), _, exec_tried.mpr (exec_select.mpr ⟨?_, rfl⟩), hx⟩
  rw [List.filter_true]

theorem jwks_ne_kid (kid : String) : "jkws_" ≠ "jwk_kid_" ++ kid := by
  intro h
  have hlist := congrArg (fun s => s.toList.take 2) h
  rw [String.toList_append] at hlist
  exact absurd hlist (by simp)

theorem latest_ne_kid (alg kid : String) : "jwk_latest_" ++ alg ≠ "jwk_kid_" ++ kid := by
  intro h
  have hlist := congrArg (fun s => s.toList.take 5) h
  rw [String.toList_append, String.toList_append] at hlist
  exact absurd hlist (by simp)

/-- No key of the algorithm is newer. -/
def Newest (w : World) (k : Jwk) : Prop :=
  ∀ k' ∈ w.db .jwks, k'.signature = k.signature → k'.createdAt ≤ k.createdAt

/-- What a cleanup is for: only keys go that are old and not the newest of their algorithm,
and no cache hands out a key that is gone. -/
structure CleanedUp (limit : Int) (w w' : World) : Prop where
  old : ∀ k ∈ w.db .jwks, k ∉ w'.db .jwks → k.createdAt < limit ∧ ¬ Newest w k
  newest : ∀ k ∈ w.db .jwks, Newest w k → k ∈ w'.db .jwks
  published : ∀ keys, w'.cache .c12hr "jkws_" = some (.jwks keys) → ∀ key ∈ keys,
    ∀ k ∈ w.db .jwks, k ∉ w'.db .jwks → key.kid ≠ some k.kid
  latest : ∀ alg kp, w'.cache .c12hr ("jwk_latest_" ++ alg) = some (.jwkKeyPair kp) →
    ∀ k ∈ w.db .jwks, k ∉ w'.db .jwks → kp.kid ≠ k.kid

/-- No newest key is old and has an older one before it, and neither the published keys nor
a latest key that are cached are such keys. -/
structure CanCleanUp (limit : Int) (w : World) : Prop where
  newest : ∀ k, Doomed w limit k → ¬ Newest w k
  published : ∀ keys, w.cache .c12hr "jkws_" = some (.jwks keys) → ∀ key ∈ keys,
    ∀ k, Doomed w limit k → key.kid ≠ some k.kid
  latest : ∀ alg kp, w.cache .c12hr ("jwk_latest_" ++ alg) = some (.jwkKeyPair kp) →
    ∀ k, Doomed w limit k → kp.kid ≠ k.kid

theorem Removed.doomed (hu : UniqueKids w) (h : Removed kids { w with clock := ms } w')
    (hkids : kids ⊆ toDelete limit [] (byCreation (w.db .jwks))) (hk : k ∈ w.db .jwks)
    (hgone : k ∉ w'.db .jwks) : Doomed w limit k := by
  rw [← mem_toDelete_byCreation hu hk]
  refine hkids ?_
  by_contra hkid
  refine hgone ?_
  rw [h.rows]
  exact List.mem_filter.mpr ⟨hk, by simpa using hkid⟩

theorem CanCleanUp.cleanedUp (hu : UniqueKids w) (hc : CanCleanUp limit w)
    (h : Removed kids { w with clock := ms } w')
    (hkids : kids ⊆ toDelete limit [] (byCreation (w.db .jwks))) : CleanedUp limit w w' where
  old k hk hgone := by
    have hd := h.doomed hu hkids hk hgone
    exact ⟨hd.2.1, hc.newest k hd⟩
  newest k hk hnew := by
    by_contra hgone
    exact hc.newest k (h.doomed hu hkids hk hgone) hnew
  published keys hcache key hkey k hk hgone := by
    rw [h.cache _ _ jwks_ne_kid] at hcache
    exact hc.published keys hcache key hkey k (h.doomed hu hkids hk hgone)
  latest alg kp hcache k hk hgone := by
    rw [h.cache _ _ (latest_ne_kid alg)] at hcache
    exact hc.latest alg kp hcache k (h.doomed hu hkids hk hgone)

/-- **The cleanup of old keys** at the time `ms` does what it is for, whatever the database
and the caches answer, exactly if no newest key is doomed and no doomed key is cached. -/
theorem cleanedUp_iff (hu : UniqueKids w) {ms : Int} (hms : w.clock ≤ ms) :
    (∀ r w', Exec sem jwksCleanup w r w' → w'.clock = ms →
      CleanedUp (ms / 1000 - retention) w w') ↔ CanCleanUp (ms / 1000 - retention) w := by
  constructor
  · intro hall
    obtain ⟨w', hx, hr⟩ := exists_jwksCleanup hms
    have hclean := hall _ w' hx hr.clock
    -- in this run every doomed key is deleted
    have hgone : ∀ k, Doomed w (ms / 1000 - retention) k → k ∉ w'.db .jwks := by
      intro k hd hk
      rw [hr.rows] at hk
      have hkid := (List.mem_filter.mp hk).2
      rw [decide_eq_true_eq] at hkid
      exact hkid ((mem_toDelete_byCreation hu hd.1).mpr hd)
    refine ⟨fun k hd => (hclean.old k hd.1 (hgone k hd)).2, fun keys hcache key hkey k hd => ?_,
      fun alg kp hcache k hd => ?_⟩
    · refine hclean.published keys ?_ key hkey k hd.1 (hgone k hd)
      rw [hr.cache _ _ jwks_ne_kid]
      exact hcache
    · refine hclean.latest alg kp ?_ k hd.1 (hgone k hd)
      rw [hr.cache _ _ (latest_ne_kid alg)]
      exact hcache
  · intro hc r w' hx hclock
    obtain ⟨-, kids, hkids, hr⟩ := outcomes_jwksCleanup r w' hx
    rw [hclock] at hkids hr
    exact hc.cleanedUp hu hr hkids

end Cleanup

/-! Two keys for EdDSA, both older than 90 days -/

def oldKey : Jwk :=
  { kid := "old", createdAt := 100, signature := .edDSA, encKeyId := "key", jwk := [] }

def newKey : Jwk :=
  { kid := "new", createdAt := 200, signature := .edDSA, encKeyId := "key", jwk := [] }

/-- A server with these keys, some 92 days after the epoch. -/
def keyWorld (jwks : List Jwk) : World where
  clock := 8000000000
  issued := []
  db
    | .jwks => jwks
    | _ => []
  cache _ _ := none

/-- A key of the last 90 days. -/
def recentKey : Jwk :=
  { kid := "recent", createdAt := 7999000, signature := .edDSA, encKeyId := "key", jwk := [] }

/-- The published form of a key for EdDSA. -/
def publishedKey (kid : String) : JWKSPublicKey :=
  { kty := .okp, alg := some .edDSA, crv := some "Ed25519", kid := some kid, n := none, e := none,
    x := some "x" }

/-- The oldest of the keys signs, and the one in the middle is not published any more. -/
def publishedWorld : World :=
  { keyWorld [oldKey, newKey, recentKey] with
    cache := fun c k =>
      if c = .c12hr ∧ k = "jkws_" then some (.jwks [publishedKey "old", publishedKey "recent"])
      else if c = .c12hr ∧ k = "jwk_latest_EdDSA" then
        some (.jwkKeyPair { kid := "old", typ := .edDSA, bytes := [] })
      else none }

theorem cachedWorld_doomed {k : Jwk} (h : Doomed publishedWorld (8000000000 / 1000 - retention) k) :
    k = newKey := by
  obtain ⟨hk, hold, hfirst⟩ := h
  have hk : k ∈ [oldKey, newKey, recentKey] := hk
  rcases List.mem_cons.mp hk with rfl | hk
  · exact absurd (by decide) hfirst
  rcases List.mem_cons.mp hk with rfl | hk
  · rfl
  · rw [List.mem_singleton.mp hk] at hold
    exact absurd hold (by decide)

/-- The key in the middle is deleted. -/
theorem cleanedUp_iff_middle : ∃ r w', Exec sem jwksCleanup publishedWorld r w' ∧
    w'.db .jwks = [oldKey, recentKey] ∧
    CleanedUp (8000000000 / 1000 - retention) publishedWorld w' := by
  obtain ⟨w', hx, hr⟩ := exists_jwksCleanup (w := publishedWorld) (Int.le_refl _)
  refine ⟨_, w', hx, ?_, (cleanedUp_iff (w := publishedWorld) (by decide) (Int.le_refl _)).mpr
    ⟨fun k hd hnew => ?_, fun keys hcache key hkey k hd => ?_, fun alg kp hcache k hd => ?_⟩
    _ w' hx hr.clock⟩
  · rw [hr.rows]
    decide
  · rw [cachedWorld_doomed hd] at hnew
    exact absurd (hnew recentKey (by decide) rfl) (by decide)
  · rw [cachedWorld_doomed hd]
    obtain rfl : [publishedKey "old", publishedKey "recent"] = keys := by
      cases hcache
      rfl
    revert key
    decide
  · rw [cachedWorld_doomed hd]
    have hold : kp.kid = "old" := by
      simp only [publishedWorld] at hcache
      split at hcache
      · cases hcache
      split at hcache
      · cases hcache
        rfl
      · cases hcache
    rw [hold]
    decide

/-- The cleanup takes the oldest key for the current one and deletes the newest. -/
theorem cleanup_deletes_newest :
    ¬ ∀ w r w', UniqueKids w → Exec sem jwksCleanup w r w' →
      CleanedUp (w'.clock / 1000 - retention) w w' := by
  intro h
  obtain ⟨w', hx, hr⟩ := exists_jwksCleanup (w := keyWorld [oldKey, newKey]) (Int.le_refl _)
  have hclean := h _ _ w' (by decide) hx
  have hin : newKey ∈ w'.db .jwks := by
    refine hclean.newest newKey (by decide) ?_
    unfold Newest
    decide
  rw [hr.rows] at hin
  exact absurd hin (by decide)

/-! ### Which key signs -/

section Sign

variable {data : AppState} {w w₁ w' : World}

/-- The world after any history of rotations, cleanups, restarts and reads of the keys, from
the start of a server in `w₀`. -/
inductive KeyHistory (data : AppState) (w₀ : World) : World → Prop
  | start : KeyHistory data w₀ { w₀ with cache := fun _ _ => none }
  | restart {w : World} (h : KeyHistory data w₀ w) :
      KeyHistory data w₀ { w with cache := fun _ _ => none }
  | rotate {w w' : World} {gen : JwkKeyPairAlg → Except ErrorResponse Bytes}
      {r : Except (Fault ErrorResponse) Unit} (h : KeyHistory data w₀ w)
      (hx : Exec sem (rotateJwks data gen) w r w') : KeyHistory data w₀ w'
  | cleanup {w w' : World} {r : Except (Fault ErrorResponse) Unit} (h : KeyHistory data w₀ w)
      (hx : Exec sem jwksCleanup w r w') : KeyHistory data w₀ w'
  | sign {w w' : World} {alg : String} {typ : JwkKeyPairAlg}
      {r : Except (Fault ErrorResponse) JwkKeyPair} (h : KeyHistory data w₀ w)
      (halg : JwkKeyPairAlg.fromStr alg = .ok typ)
      (hx : Exec sem (JwkKeyPair.findLatest data alg typ) w r w') : KeyHistory data w₀ w'
  | verify {w w' : World} {kid : String} {r : Except (Fault ErrorResponse) JwkKeyPair}
      (h : KeyHistory data w₀ w) (hx : Exec sem (JwkKeyPair.find data kid) w r w') :
      KeyHistory data w₀ w'
  | publish {w w' : World} {r : Except (Fault ErrorResponse) (List JWKSPublicKey)}
      (h : KeyHistory data w₀ w) (hx : Exec sem (JWKS.findPk data) w r w') : KeyHistory data w₀ w'

/-- The keys were created in the past, and what is cached as the latest key of an algorithm
is its first one. -/
structure KeysOk (w : World) : Prop where
  unique : UniqueKids w
  past : ∀ k ∈ w.db .jwks, k.createdAt ≤ w.clock / 1000
  latest : ∀ alg kp, w.cache .c12hr ("jwk_latest_" ++ alg.asStr) = some (.jwkKeyPair kp) →
    ∃ k, first (keysOf alg (w.db .jwks)) = some k ∧ kp.kid = k.kid

/-- The keys are the same, and no latest key is cached that was not. -/
theorem KeysOk.of_eq (h : KeysOk w) (hdb : w'.db .jwks = w.db .jwks) (hclock : w.clock ≤ w'.clock)
    (hcache : ∀ alg kp, w'.cache .c12hr ("jwk_latest_" ++ alg) = some (.jwkKeyPair kp) →
      w.cache .c12hr ("jwk_latest_" ++ alg) = some (.jwkKeyPair kp)) : KeysOk w' where
  unique := by
    unfold UniqueKids
    rw [hdb]
    exact h.unique
  past k hk := by
    rw [hdb] at hk
    have hpast := h.past k hk
    omega
  latest alg kp hkp := by
    rw [hdb]
    exact h.latest alg kp (hcache _ kp hkp)

theorem KeysOk.clock (h : KeysOk w) {ms : Int} (hms : w.clock ≤ ms) : KeysOk { w with clock := ms } :=
  h.of_eq rfl hms fun _ _ hkp => hkp

theorem KeysOk.del (h : KeysOk w) (c : CacheName) (k : String) : KeysOk (w.del c k) := by
  refine h.of_eq rfl (Int.le_refl _) fun alg kp hkp => ?_
  rw [World.del_cache] at hkp
  split at hkp
  · cases hkp
  · exact hkp

theorem KeysOk.put (h : KeysOk w) {k : String} (hk : ∀ alg, "jwk_latest_" ++ alg ≠ k) (v : CacheVal) :
    KeysOk (w.put .c12hr k v) := by
  refine h.of_eq rfl (Int.le_refl _) fun alg kp hkp => ?_
  rw [World.put_cache, if_neg fun h => hk alg h.2] at hkp
  exact hkp

/-- A key that is created now is not the first of its algorithm, unless it is the only one. -/
theorem KeysOk.insert (h : KeysOk w) {k : Jwk} (hk : k.createdAt = w.clock / 1000) {db : Db}
    (hdb : applyAll [.insert .jwks k] w.db = some db) : KeysOk { w with db } := by
  have hins : (DbWrite.insert .jwks k).apply w.db = some db := by
    simpa [applyAll, Option.bind_eq_some_iff] using hdb
  simp only [DbWrite.apply] at hins
  split at hins
  · cases hins
  next hfree =>
  cases hins
  have hrows : Function.update w.db .jwks (w.db .jwks ++ [k]) .jwks = w.db .jwks ++ [k] :=
    Function.update_self ..
  have hnew : ∀ k' ∈ w.db .jwks, k'.kid ≠ k.kid := by
    intro k' hk' hkid
    refine hfree (List.any_eq_true.mpr ⟨k', hk', ?_⟩)
    show (k.kid == k'.kid) = true
    rw [hkid]
    exact beq_self_eq_true _
  refine ⟨?_, fun k' hk' => ?_, fun alg kp hkp => ?_⟩
  · show ((Function.update w.db .jwks (w.db .jwks ++ [k]) .jwks).map Jwk.kid).Nodup
    rw [hrows, List.map_append]
    refine List.nodup_append.mpr ⟨h.unique, List.nodup_singleton _, fun a ha b hb => ?_⟩
    obtain ⟨k', hk', rfl⟩ := List.mem_map.mp ha
    rw [List.map_singleton, List.mem_singleton] at hb
    rw [hb]
    exact hnew k' hk'
  · have hk' : k' ∈ w.db .jwks ++ [k] := by
      rw [← hrows]
      exact hk'
    rcases List.mem_append.mp hk' with hk' | hk'
    · exact h.past k' hk'
    · rw [List.mem_singleton.mp hk']
      exact Int.le_of_eq hk
  · obtain ⟨a, ha, hkid⟩ := h.latest alg kp hkp
    refine ⟨a, ?_, hkid⟩
    show first (keysOf alg (Function.update w.db .jwks (w.db .jwks ++ [k]) .jwks)) = some a
    rw [hrows, keysOf, List.filter_append]
    by_cases hsig : k.signature = alg
    · rw [List.filter_cons_of_pos (by simpa using hsig), List.filter_nil]
      refine first_append ha fun c hc => ?_
      rw [hk]
      exact h.past c (mem_keysOf.mp hc).1
    · rw [List.filter_cons_of_neg (by simpa using hsig), List.filter_nil, List.append_nil]
      exact ha

theorem KeysOk.removed (h : KeysOk w) {kids : List String} {limit : Int}
    (hkids : kids ⊆ toDelete limit [] (byCreation (w.db .jwks))) (hle : w.clock ≤ w'.clock)
    (hr : Removed kids { w with clock := w'.clock } w') : KeysOk w' := by
  have hrows := hr.rows
  refine ⟨?_, fun k hk => ?_, fun alg kp hkp => ?_⟩
  · unfold UniqueKids
    rw [hrows]
    exact h.unique.sublist ((List.filter_sublist).map Jwk.kid)
  · rw [hrows] at hk
    have hpast := h.past k (List.mem_filter.mp hk).1
    omega
  · rw [hr.cache _ _ (latest_ne_kid _)] at hkp
    obtain ⟨a, ha, hkid⟩ := h.latest alg kp hkp
    refine ⟨a, ?_, hkid⟩
    obtain ⟨hmem, hsig⟩ := mem_keysOf.mp (first_mem ha)
    have hkept : decide (a.kid ∉ kids) = true := by
      rw [decide_eq_true_eq]
      intro hin
      have hd := (mem_toDelete_byCreation h.unique hmem).mp (hkids hin)
      rw [← hsig] at ha
      exact hd.2.2 ha
    have hcomm : keysOf alg (w'.db .jwks) =
        (keysOf alg (w.db .jwks)).filter fun j => j.kid ∉ kids := by
      unfold keysOf
      rw [hrows, List.filter_filter, List.filter_filter]
      exact List.filter_congr fun j _ => Bool.and_comm _ _
    rw [hcomm]
    exact first_filter ha hkept

/-! The operations -/

theorem outcomes_rotateJwk (h : KeysOk w) {alg : JwkKeyPairAlg} {der : Except ErrorResponse Bytes} :
    Outcomes sem (rotateJwk data alg der) w fun _ w' => KeysOk w' := by
  refine outcomes_bind (outcomes_answer (fun bytes _ => ?_) fun _ _ => h)
  refine outcomes_bind (outcomes_call fun kid w₁ hkid => outcomes_ret ?_)
  obtain ⟨-, -, -, rfl⟩ := sem_getRand.mp hkid
  have h₁ : KeysOk { w with issued := kid :: w.issued } := ⟨h.unique, h.past, h.latest⟩
  refine outcomes_bind (outcomes_answer (fun jwk _ => ?_) fun _ _ => h₁)
  refine outcomes_bind (outcomes_unixTimestamp fun ms hms => ?_)
  have h₂ := h₁.clock hms
  exact outcomes_executeAll (fun _ => h₂) fun r db hdb => h₂.insert rfl hdb

theorem outcomes_rotateJwks (h : KeysOk w) {gen : JwkKeyPairAlg → Except ErrorResponse Bytes} :
    Outcomes sem (rotateJwks data gen) w fun _ w' => KeysOk w' := by
  have hseq : ∀ {w : World} {p q : M ErrorResponse Unit},
      Outcomes sem p w (fun _ w' => KeysOk w') →
      (∀ w', KeysOk w' → Outcomes sem q w' fun _ w' => KeysOk w') →
      Outcomes sem (p >>= fun _ => q) w fun _ w' => KeysOk w' := by
    intro w p q hp hq
    refine outcomes_bind (outcomes_mono hp fun r w₁ h₁ => ?_)
    rcases r with e | u
    · exact h₁
    · exact hq w₁ h₁
  have hdel : ∀ {w : World} {k : String}, KeysOk w →
      Outcomes sem (cacheDel .c12hr k) w fun _ w' => KeysOk w' :=
    fun h => outcomes_cacheDel (fun _ => h) fun _ => h.del _ _
  refine hseq (outcomes_rotateJwk h) fun w₁ h₁ => hseq (outcomes_rotateJwk h₁) fun w₂ h₂ => ?_
  refine hseq (outcomes_rotateJwk h₂) fun w₃ h₃ => hseq (outcomes_rotateJwk h₃) fun w₄ h₄ => ?_
  refine hseq (hdel h₄) fun w₅ h₅ => hseq (hdel h₅) fun w₆ h₆ => ?_
  exact hseq (hdel h₆) fun w₇ h₇ => hseq (hdel h₇) fun w₈ h₈ => hdel h₈

theorem asStr_injective : Function.Injective JwkKeyPairAlg.asStr := by
  intro a b h
  cases a <;> cases b <;> first | rfl | exact absurd h (by decide)

/-- The key that signs is the first of its algorithm, cached or not. -/
theorem outcomes_findLatest (h : KeysOk w) {alg : String} {typ : JwkKeyPairAlg}
    (halg : JwkKeyPairAlg.fromStr alg = .ok typ) :
    Outcomes sem (JwkKeyPair.findLatest data alg typ) w fun r w' => KeysOk w' ∧
      ∀ kp, r = .ok kp → ∃ k, first (keysOf typ (w.db .jwks)) = some k ∧ kp.kid = k.kid := by
  obtain rfl := asStr_of_fromStr halg
  refine outcomes_cached (fun v kp hv hkp => ⟨h, ?_⟩) (fun e => ⟨h, by simp⟩) fun w₁ hw₁ => ?_
  · rintro _ ⟨⟩
    refine h.latest typ kp ?_
    cases v <;> cases hkp
    exact hv
  have h₁ : KeysOk w₁ := by
    rcases hw₁ with rfl | rfl
    · exact h
    · exact h.del _ _
  have hrows : w₁.db .jwks = w.db .jwks := by
    rcases hw₁ with rfl | rfl <;> rfl
  refine outcomes_bind (outcomes_select ?_ fun e => ⟨h₁, by simp⟩)
  rw [List.filter_true]
  refine outcomes_bind (outcomes_unwrap (fun jwk hjwk => ?_) fun _ => ⟨h₁, by simp⟩)
  refine outcomes_answer (fun kp hkp => ?_) fun e _ => ⟨h₁, by simp⟩
  -- the first row is decrypted
  have hfirst : first (keysOf typ (w₁.db .jwks)) = some jwk := hjwk
  have hkid : kp.kid = jwk.kid := by
    unfold JwkKeyPair.decrypt at hkp
    rcases hd : data.decrypt jwk.jwk with e | bytes
    · rw [hd] at hkp
      cases hkp
    · rw [hd] at hkp
      cases hkp
      rfl
  have hput : KeysOk (w₁.put .c12hr ("jwk_latest_" ++ typ.asStr) (.jwkKeyPair kp)) := by
    refine ⟨h₁.unique, h₁.past, fun alg' kp' hkp' => ?_⟩
    rw [World.put_cache] at hkp'
    split at hkp'
    · next heq =>
        cases hkp'
        rw [asStr_injective ((String.append_right_inj _).mp heq.2)]
        exact ⟨jwk, hfirst, hkid⟩
    · exact h₁.latest alg' kp' hkp'
  refine ⟨fun e => ⟨h₁, by simp⟩, fun e => ⟨hput, by simp⟩, hput, ?_⟩
  rintro _ ⟨⟩
  rw [← hrows]
  exact ⟨jwk, hfirst, hkid⟩

theorem outcomes_cached_other {α : Type} (h : KeysOk w) {k : String}
    (hk : ∀ alg, "jwk_latest_" ++ alg ≠ k) {as : CacheVal → Option α} {wrap : α → CacheVal}
    {load : M ErrorResponse α} (hl : Touches [] [] load) :
    Outcomes sem (cached .c12hr k as wrap load) w fun _ w' => KeysOk w' := by
  refine outcomes_cached (fun _ _ _ _ => h) (fun _ => h) fun w₁ hw₁ => ?_
  have h₁ : KeysOk w₁ := by
    rcases hw₁ with rfl | rfl
    · exact h
    · exact h.del _ _
  intro r w₂ hx
  have hframe := hl.frame hx
  have h₂ : KeysOk w₂ := by
    refine h₁.of_eq (hframe.db _ (by simp)) hframe.clock fun alg kp hkp => ?_
    exact (hframe.cache _ _ _ hkp).resolve_right (by simp)
  rcases r with e | a
  · exact h₂
  · exact ⟨fun _ => h₂, fun _ => h₂.put hk _, h₂.put hk _⟩

theorem publicKeys_touches (certs : List Jwk) : Touches [] [] (publicKeys data certs) := by
  induction certs with
  | nil => exact touches_ret _
  | cons cert certs ih =>
      refine touches_bind (touches_answer _) fun kp => touches_bind ?_ fun key =>
        touches_bind ih fun _ => touches_ret _
      unfold JWKSPublicKey.fromKeyPair
      cases kp.typ <;> exact touches_bind (touches_unwrap _ _) fun _ => touches_ret _

theorem latest_ne_jwks (alg : String) : "jwk_latest_" ++ alg ≠ "jkws_" := by
  intro h
  have hlist := congrArg (fun s => s.toList.take 2) h
  rw [String.toList_append] at hlist
  exact absurd hlist (by simp)

theorem KeyHistory.keysOk {w₀ : World} (hu : UniqueKids w₀)
    (hpast : ∀ k ∈ w₀.db .jwks, k.createdAt ≤ w₀.clock / 1000) (h : KeyHistory data w₀ w) :
    KeysOk w := by
  induction h with
  | start => exact ⟨hu, hpast, fun _ _ hkp => by cases hkp⟩
  | restart _ ih => exact ⟨ih.unique, ih.past, fun _ _ hkp => by cases hkp⟩
  | rotate _ hx ih => exact outcomes_rotateJwks ih _ _ hx
  | cleanup _ hx ih =>
      obtain ⟨hle, kids, hkids, hr⟩ := outcomes_jwksCleanup _ _ hx
      exact ih.removed hkids hle hr
  | sign _ halg hx ih => exact (outcomes_findLatest ih halg _ _ hx).1
  | verify _ hx ih =>
      refine outcomes_cached_other ih (fun alg => latest_ne_kid alg _) ?_ _ _ hx
      exact touches_bind (touches_fetchOne _ _) fun _ => touches_answer _
  | publish _ hx ih =>
      refine outcomes_cached_other ih latest_ne_jwks ?_ _ _ hx
      exact touches_bind (touches_select _ _) fun _ => publicKeys_touches _

/-- The key with this id is the newest of the algorithm. -/
def IsNewest (w : World) (alg : JwkKeyPairAlg) (kid : String) : Prop :=
  ∃ k ∈ keysOf alg (w.db .jwks), k.kid = kid ∧
    ∀ k' ∈ keysOf alg (w.db .jwks), k'.createdAt ≤ k.createdAt

/-- **Which key signs**: after every history, a token is signed with the newest key of its
algorithm exactly if no key of the algorithm is older than another. -/
theorem signed_with_newest_iff {w₀ : World} (hu : UniqueKids w₀)
    (hpast : ∀ k ∈ w₀.db .jwks, k.createdAt ≤ w₀.clock / 1000) (h : KeyHistory data w₀ w)
    {alg : String} {typ : JwkKeyPairAlg} (halg : JwkKeyPairAlg.fromStr alg = .ok typ)
    {kp : JwkKeyPair} (hx : Exec sem (JwkKeyPair.findLatest data alg typ) w (.ok kp) w') :
    IsNewest w typ kp.kid ↔ ∀ k ∈ keysOf typ (w.db .jwks), ∀ k' ∈ keysOf typ (w.db .jwks),
      k.createdAt = k'.createdAt := by
  have hok := h.keysOk hu hpast
  obtain ⟨a, ha, hkid⟩ := (outcomes_findLatest hok halg _ _ hx).2 kp rfl
  have hmem := first_mem ha
  constructor
  · rintro ⟨k, hk, hkk, hmax⟩ k₁ hk₁ k₂ hk₂
    -- the newest key is the first one, so all lie between
    have hka : k = a := hok.unique.eq (mem_keysOf.mp hk).1 (mem_keysOf.mp hmem).1
      (hkk.trans hkid)
    subst hka
    have h₁ := first_le ha hk₁
    have h₂ := first_le ha hk₂
    have h₁' := hmax k₁ hk₁
    have h₂' := hmax k₂ hk₂
    omega
  · intro hsame
    exact ⟨a, hmem, hkid.symm, fun k' hk' => Int.le_of_eq (hsame k' hk' a hmem)⟩

end Sign

/-- The choices for one key of a rotation. -/
def rotateChoices (ms : Int) (kid : String) : List Choice := [.rand kid, .time ms, .ok]

/-- Two rotations in one second, of a server that has had no keys: none is older than another. -/
theorem signed_with_newest_iff_rotated :
    ∃ kp w₁ w₂ w', Exec sem (rotateJwks sampleState fun _ => .ok []) (keyWorld []) (.ok ()) w₁ ∧
      Exec sem (rotateJwks sampleState fun _ => .ok []) w₁ (.ok ()) w₂ ∧
      Exec sem (JwkKeyPair.findLatest sampleState "EdDSA" .edDSA) w₂ (.ok kp) w' ∧
      (keysOf .edDSA (w₂.db .jwks)).length = 2 ∧ IsNewest w₂ .edDSA kp.kid := by
  obtain ⟨r, w', hx, hr⟩ := Pool.exists_exec_of_choices Op.run
    (do
      rotateJwks sampleState fun _ => .ok []
      rotateJwks sampleState fun _ => .ok []
      JwkKeyPair.findLatest sampleState "EdDSA" .edDSA)
    (rotateChoices 8000000000 "aaaaaaaaaaaaaaaaaaaaaaaa" ++
      rotateChoices 8000000000 "bbbbbbbbbbbbbbbbbbbbbbbb" ++
      rotateChoices 8000000000 "cccccccccccccccccccccccc" ++
      rotateChoices 8000000000 "dddddddddddddddddddddddd" ++ [.ok, .ok, .ok, .ok, .ok] ++
      rotateChoices 8000000000 "eeeeeeeeeeeeeeeeeeeeeeee" ++
      rotateChoices 8000000000 "ffffffffffffffffffffffff" ++
      rotateChoices 8000000000 "gggggggggggggggggggggggg" ++
      rotateChoices 8000000000 "hhhhhhhhhhhhhhhhhhhhhhhh" ++
      [.ok, .ok, .ok, .ok, .ok, .ok, .ok, .ok]) (keyWorld [])
    (fun r w' => r.isOk && decide ((keysOf .edDSA (w'.db .jwks)).length = 2 ∧
      ∀ k ∈ keysOf .edDSA (w'.db .jwks), k.createdAt = 8000000)) (by decide +kernel)
  rcases r with e | kp
  · cases hr
  obtain ⟨htwo, hsame⟩ := of_decide_eq_true hr
  obtain ⟨⟨⟩, w₁, hfst, hx⟩ := exec_bind_ok.mp hx
  obtain ⟨⟨⟩, w₂, hsnd, hsign⟩ := exec_bind_ok.mp hx
  have hrows : w'.db .jwks = w₂.db .jwks :=
    ((JwkKeyPair.findLatest_touches _ _ _).frame hsign).db _ (by simp)
  rw [hrows] at htwo hsame
  have hhistory : KeyHistory sampleState (keyWorld []) w₂ := .rotate (.rotate .start hfst) hsnd
  refine ⟨kp, w₁, w₂, w', hfst, hsnd, hsign, htwo, ?_⟩
  refine (signed_with_newest_iff (by decide) (fun k hk => ?_) hhistory rfl hsign).mpr ?_
  · cases hk
  · intro k hk k' hk'
    rw [hsame k hk, hsame k' hk']

/-- A rotation, after which tokens are still signed with the key from before. -/
theorem rotation_without_effect :
    ¬ ∀ (data : AppState) (w₀ w w₁ w' : World) (gen : JwkKeyPairAlg → Except ErrorResponse Bytes)
      (alg : String) (typ : JwkKeyPairAlg) (kp : JwkKeyPair), UniqueKids w₀ →
      (∀ k ∈ w₀.db .jwks, k.createdAt ≤ w₀.clock / 1000) → KeyHistory data w₀ w →
      Exec sem (rotateJwks data gen) w (.ok ()) w₁ → JwkKeyPairAlg.fromStr alg = .ok typ →
      Exec sem (JwkKeyPair.findLatest data alg typ) w₁ (.ok kp) w' → IsNewest w₁ typ kp.kid := by
  intro h
  obtain ⟨r, w', hx, hr⟩ := Pool.exists_exec_of_choices Op.run
    (do
      rotateJwks sampleState fun _ => .ok []
      JwkKeyPair.findLatest sampleState "EdDSA" .edDSA)
    (rotateChoices 8000000000 "aaaaaaaaaaaaaaaaaaaaaaaa" ++
      rotateChoices 8000000000 "bbbbbbbbbbbbbbbbbbbbbbbb" ++
      rotateChoices 8000000000 "cccccccccccccccccccccccc" ++
      rotateChoices 8000000000 "dddddddddddddddddddddddd" ++
      [.ok, .ok, .ok, .ok, .ok, .ok, .ok, .ok]) (keyWorld [oldKey])
    (fun r w' => r.toOption.any fun kp =>
      decide (kp.kid = "old" ∧ (∀ k ∈ w'.db .jwks, k.kid = "old" → k.createdAt = 100) ∧
        ∃ k ∈ w'.db .jwks, k.signature = .edDSA ∧ 100 < k.createdAt)) (by decide +kernel)
  rcases r with e | kp
  · cases hr
  obtain ⟨hkid, hold, k', hk', hsig, hnewer⟩ := of_decide_eq_true hr
  obtain ⟨⟨⟩, w₁, hrotate, hsign⟩ := exec_bind_ok.mp hx
  have hstart : KeyHistory sampleState (keyWorld [oldKey]) (keyWorld [oldKey]) := .start
  obtain ⟨k, hk, hkk, hmax⟩ := h sampleState (keyWorld [oldKey]) _ w₁ w' _ "EdDSA" .edDSA kp
    (by decide) (by decide) hstart hrotate rfl hsign
  have hrows : w'.db .jwks = w₁.db .jwks :=
    ((JwkKeyPair.findLatest_touches _ _ _).frame hsign).db _ (by simp)
  rw [hrows] at hold hk'
  have hthis := hold k (mem_keysOf.mp hk).1 (hkk.trans hkid)
  have hle := hmax k' (mem_keysOf.mpr ⟨hk', hsig⟩)
  omega

end Rauthy
