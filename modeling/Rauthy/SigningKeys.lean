/-
Rauthy/SigningKeys.lean

The keys of a running server: rotations and cleanups, and the requests that sign, verify and publish
keys, all work on the same rows and the same caches at the same time.

As the first key of an algorithm is taken for its latest one (`find_latest`) and is the one that the
cleanup keeps (`jwks_cleanup`), it is the same key for as long as the server lives.

Main result:
  * `signing_keys_fixed`: in every interleaving, all tokens of an algorithm are signed with the key
    that was its first one at the start.  This key is never deleted, it is the one that a lookup by
    its name finds, and it is in every list of keys that is published.
-/
import Rauthy.KeyRotation
import Rauthy.Lib.Pool
import Rauthy.Transactions

namespace Rauthy

open Prog Pool

/-! ### The first key, as others come and go -/

section First

variable {jwks : List Jwk} {a b : Jwk}

/-- A key that is added at the end does not come before a key that is as old. -/
theorem first_concat : first (jwks ++ [b]) = match first jwks with
    | none => some b
    | some a => if a.createdAt ≤ b.createdAt then some a else some b := by
  induction jwks with
  | nil => rfl
  | cons c l ih =>
      rw [List.cons_append, first_cons, ih, first_cons]
      rcases first l with - | d
      · rfl
      · grind

theorem keysOf_append (alg : JwkKeyPairAlg) :
    keysOf alg (jwks ++ [b]) = keysOf alg jwks ++ keysOf alg [b] := List.filter_append ..

/-- A key that is not older than the first one of its algorithm does not take its place. -/
theorem first_keysOf_append {alg : JwkKeyPairAlg} (h : first (keysOf alg jwks) = some a)
    (hb : a.createdAt ≤ b.createdAt) : first (keysOf alg (jwks ++ [b])) = some a := by
  rw [keysOf_append]
  by_cases hsig : b.signature = alg
  · have hkeys : keysOf alg [b] = [b] := List.filter_cons_of_pos (by simpa using hsig)
    rw [hkeys, first_concat, h]
    exact if_pos hb
  · have hkeys : keysOf alg [b] = [] := List.filter_cons_of_neg (by simpa using hsig)
    rw [hkeys, List.append_nil, h]

theorem first_not_toDelete {alg : JwkKeyPairAlg} {limit : Int}
    (h : first (keysOf alg jwks) = some a) (hu : (jwks.map Jwk.kid).Nodup) :
    a.kid ∉ toDelete limit [] (byCreation jwks) := by
  obtain ⟨hmem, hsig⟩ := mem_keysOf.mp (first_mem h)
  have hnodup : ((byCreation jwks).map Jwk.kid).Nodup :=
    ((List.perm_insertionSort _ jwks).map Jwk.kid).nodup_iff.mpr hu
  rw [mem_toDelete hnodup (mem_byCreation.mpr hmem)]
  rintro ⟨-, hin | hne⟩
  · cases hin
  · apply hne
    rw [find_byCreation, hsig, h]

end First

/-! ### The requests -/

/-- What the server does with its keys; `aside` is anything else that it does. -/
inductive JwkCall where
  | rotate (gen : JwkKeyPairAlg → Except ErrorResponse Bytes)
  | cleanup
  | sign (typ : JwkKeyPairAlg)
  | verify (kid : String)
  | publish
  | aside (p : M ErrorResponse Unit)

inductive JwkAnswer where
  | done
  | key (kp : JwkKeyPair)
  | keys (keys : List JWKSPublicKey)

def JwkCall.prog (data : AppState) : JwkCall → M ErrorResponse JwkAnswer
  | rotate gen => do
      rotateJwks data gen
      return .done
  | cleanup => do
      jwksCleanup
      return .done
  | sign typ => do
      let kp ← JwkKeyPair.findLatest data typ.asStr typ
      return .key kp
  | verify kid => do
      let kp ← JwkKeyPair.find data kid
      return .key kp
  | publish => do
      let keys ← JWKS.findPk data
      return .keys keys
  | aside p => do
      p
      return .done

/-- What is done aside leaves the rows of the keys alone, and caches no keys. -/
def JwkCall.Apart : JwkCall → Prop
  | aside p => ∃ ts cs, Touches ts cs p ∧ .jwks ∉ ts ∧ (.c12hr, .jwkKeyPair) ∉ cs ∧
      (.c12hr, .jwks) ∉ cs
  | _ => True

/-- The list has the public key of each of the keys. -/
def Publishes (data : AppState) (keyOf : JwkKeyPairAlg → Jwk) (keys : List JWKSPublicKey) : Prop :=
  ∀ alg, ∃ kp key, JwkKeyPair.decrypt data (keyOf alg) alg = .ok kp ∧
    JWKSPublicKey.fromKeyPair data kp = ret key ∧ key ∈ keys

/-- The answers, if `keyOf` are the keys that sign. -/
def JwkCall.Answers (data : AppState) (keyOf : JwkKeyPairAlg → Jwk) : JwkCall → JwkAnswer → Prop
  | sign typ, .key kp => JwkKeyPair.decrypt data (keyOf typ) typ = .ok kp
  | verify kid, .key kp =>
      ∀ alg, kid = (keyOf alg).kid → JwkKeyPair.decrypt data (keyOf alg) alg = .ok kp
  | publish, .keys keys => Publishes data keyOf keys
  | _, _ => True

/-- What holds in every state: the keys that sign are the first ones of their algorithms, and what
is cached of them is right. -/
structure KeysSign (data : AppState) (keyOf : JwkKeyPairAlg → Jwk) (w : World) : Prop where
  first : ∀ alg, first (keysOf alg (w.db .jwks)) = some (keyOf alg)
  unique : UniqueKids w
  past : ∀ alg, (keyOf alg).createdAt ≤ w.clock / 1000
  latest : ∀ alg kp, w.cache .c12hr ("jwk_latest_" ++ alg.asStr) = some (.jwkKeyPair kp) →
    JwkKeyPair.decrypt data (keyOf alg) alg = .ok kp
  byKid : ∀ alg kp, w.cache .c12hr ("jwk_kid_" ++ (keyOf alg).kid) = some (.jwkKeyPair kp) →
    JwkKeyPair.decrypt data (keyOf alg) alg = .ok kp
  published : ∀ keys, w.cache .c12hr "jkws_" = some (.jwks keys) → Publishes data keyOf keys

/-! ### What keeps the keys -/

section Keys

variable {data : AppState} {keyOf : JwkKeyPairAlg → Jwk} {w w' : World}
  {db : Db} {kid : String} {kp : JwkKeyPair}

theorem KeysSign.mem (h : KeysSign data keyOf w) (alg : JwkKeyPairAlg) :
    keyOf alg ∈ w.db .jwks ∧ (keyOf alg).signature = alg :=
  mem_keysOf.mp (first_mem (h.first alg))

theorem KeysSign.rows (h : KeysSign data keyOf w)
    (hfirst : ∀ alg, Rauthy.first (keysOf alg (db .jwks)) = some (keyOf alg))
    (hu : ((db .jwks).map Jwk.kid).Nodup) : KeysSign data keyOf { w with db } :=
  ⟨hfirst, hu, h.past, h.latest, h.byKid, h.published⟩

/-- The rows are the same, and no key is cached that was not. -/
theorem KeysSign.frame (h : KeysSign data keyOf w) (hdb : w'.db .jwks = w.db .jwks)
    (hclock : w.clock ≤ w'.clock)
    (hcache : ∀ k v, w'.cache .c12hr k = some v →
      (∃ kp, v = .jwkKeyPair kp) ∨ (∃ ks, v = .jwks ks) → w.cache .c12hr k = some v) :
    KeysSign data keyOf w' where
  first alg := by
    rw [hdb]
    exact h.first alg
  unique := by
    show ((w'.db .jwks).map Jwk.kid).Nodup
    rw [hdb]
    exact h.unique
  past alg := by
    have hpast := h.past alg
    omega
  latest alg kp hkp := h.latest alg kp (hcache _ _ hkp (.inl ⟨kp, rfl⟩))
  byKid alg kp hkp := h.byKid alg kp (hcache _ _ hkp (.inl ⟨kp, rfl⟩))
  published keys hkeys := h.published keys (hcache _ _ hkeys (.inr ⟨keys, rfl⟩))

theorem KeysSign.del (h : KeysSign data keyOf w) (c : CacheName) (k : String) :
    KeysSign data keyOf (w.del c k) := by
  refine h.frame rfl (Int.le_refl _) fun k' v hv _ => ?_
  rw [World.del_cache] at hv
  split at hv
  · cases hv
  · exact hv

theorem KeysSign.insert (h : KeysSign data keyOf w) {k : Jwk}
    (hk : ∀ alg, (keyOf alg).createdAt ≤ k.createdAt)
    (hdb : applyAll [.insert .jwks k] w.db = some db) : KeysSign data keyOf { w with db } := by
  obtain ⟨hfree, rfl⟩ := applyAll_insert hdb
  have hrows : Function.update w.db .jwks (w.db .jwks ++ [k]) .jwks = w.db .jwks ++ [k] :=
    Function.update_self ..
  apply h.rows
  · intro alg
    rw [hrows]
    exact first_keysOf_append (h.first alg) (hk alg)
  · rw [hrows, List.map_append]
    apply List.nodup_append.mpr
    refine ⟨h.unique, List.nodup_singleton _, fun a ha b hb => ?_⟩
    obtain ⟨k', hk', rfl⟩ := List.mem_map.mp ha
    rw [List.map_singleton, List.mem_singleton] at hb
    have hne : (k.kid == k'.kid) = false := hfree k' hk'
    rintro rfl
    rw [← hb, beq_self_eq_true] at hne
    cases hne

theorem KeysSign.delete (h : KeysSign data keyOf w) (hkid : ∀ alg, kid ≠ (keyOf alg).kid)
    (hdb : applyAll [.delete .jwks fun j => j.kid == kid] w.db = some db) :
    KeysSign data keyOf { w with db } := by
  have hrows : db .jwks = (w.db .jwks).filter fun j => !(j.kid == kid) := by
    cases hdb
    exact Function.update_self ..
  apply h.rows
  · intro alg
    rw [hrows, keysOf, List.filter_comm]
    apply first_filter (h.first alg)
    simpa using (hkid alg).symm
  · rw [hrows]
    exact h.unique.sublist (List.filter_sublist.map Jwk.kid)

/-! The entries of the caches have names of their own. -/

theorem kid_ne_jwks (kid : String) : "jwk_kid_" ++ kid ≠ "jkws_" := by
  intro h
  have hlist := congrArg (fun s => s.toList.take 2) h
  rw [String.toList_append] at hlist
  exact absurd hlist (by simp)

theorem KeysSign.putLatest (h : KeysSign data keyOf w) {typ : JwkKeyPairAlg}
    (hkp : JwkKeyPair.decrypt data (keyOf typ) typ = .ok kp) :
    KeysSign data keyOf (w.put .c12hr ("jwk_latest_" ++ typ.asStr) (.jwkKeyPair kp)) where
  first := h.first
  unique := h.unique
  past := h.past
  latest alg kp' hkp' := by
    rw [World.put_cache] at hkp'
    split at hkp'
    · next hsame =>
      cases hkp'
      rw [asStr_injective ((String.append_right_inj _).mp hsame.2)]
      exact hkp
    · exact h.latest alg kp' hkp'
  byKid alg kp' hkp' := by
    rw [World.put_cache, if_neg fun hsame => latest_ne_kid _ _ hsame.2.symm] at hkp'
    exact h.byKid alg kp' hkp'
  published keys hkeys := by
    rw [World.put_cache, if_neg fun hsame => latest_ne_jwks _ hsame.2.symm] at hkeys
    exact h.published keys hkeys

theorem KeysSign.putKid (h : KeysSign data keyOf w)
    (hkp : ∀ alg, kid = (keyOf alg).kid → JwkKeyPair.decrypt data (keyOf alg) alg = .ok kp) :
    KeysSign data keyOf (w.put .c12hr ("jwk_kid_" ++ kid) (.jwkKeyPair kp)) where
  first := h.first
  unique := h.unique
  past := h.past
  latest alg kp' hkp' := by
    rw [World.put_cache, if_neg fun hsame => latest_ne_kid _ _ hsame.2] at hkp'
    exact h.latest alg kp' hkp'
  byKid alg kp' hkp' := by
    rw [World.put_cache] at hkp'
    split at hkp'
    · next hsame =>
      cases hkp'
      exact hkp alg ((String.append_right_inj _).mp hsame.2).symm
    · exact h.byKid alg kp' hkp'
  published keys hkeys := by
    rw [World.put_cache, if_neg fun hsame => kid_ne_jwks _ hsame.2.symm] at hkeys
    exact h.published keys hkeys

theorem KeysSign.putKeys (h : KeysSign data keyOf w) {keys : List JWKSPublicKey}
    (hkeys : Publishes data keyOf keys) :
    KeysSign data keyOf (w.put .c12hr "jkws_" (.jwks keys)) where
  first := h.first
  unique := h.unique
  past := h.past
  latest alg kp hkp := by
    rw [World.put_cache, if_neg fun hsame => latest_ne_jwks _ hsame.2] at hkp
    exact h.latest alg kp hkp
  byKid alg kp hkp := by
    rw [World.put_cache, if_neg fun hsame => kid_ne_jwks _ hsame.2] at hkp
    exact h.byKid alg kp hkp
  published keys' hkeys' := by
    rw [World.put_cache, if_pos ⟨rfl, rfl⟩] at hkeys'
    cases hkeys'
    exact hkeys

/-! ### What the requests keep -/

theorem keeps_cacheDel {c : CacheName} {k : String} :
    Keeps sem (KeysSign data keyOf) (cacheDel c k) fun _ => True := by
  refine keeps_call fun w x w' hw hx => ⟨?_, keeps_answer fun _ _ => trivial⟩
  rcases sem_cacheDel.mp hx with ⟨-, rfl⟩ | ⟨e, -, rfl | rfl⟩
  · exact hw.del c k
  · exact hw
  · exact hw.del c k

theorem keeps_unixTimestamp :
    Keeps sem (KeysSign data keyOf) (unixTimestamp : M ErrorResponse Int) fun now =>
      ∀ alg, (keyOf alg).createdAt ≤ now := by
  refine keeps_bind (F := fun ms => ∀ alg, (keyOf alg).createdAt ≤ ms / 1000) ?_
    fun ms hms => keeps_ret hms
  refine keeps_call fun w ms w' hw hx => ?_
  obtain ⟨hle, rfl⟩ := sem_now.mp hx
  have hw' : KeysSign data keyOf { w with clock := ms } :=
    hw.frame rfl hle fun _ _ hv _ => hv
  exact ⟨hw', hw'.past⟩

theorem keeps_rotateJwk {alg : JwkKeyPairAlg} {der : Except ErrorResponse Bytes} :
    Keeps sem (KeysSign data keyOf) (rotateJwk data alg der) fun _ => True := by
  apply keeps_bind (keeps_answer fun bytes _ => trivial)
  intro bytes _
  apply keeps_bind (F := fun _ => True)
  · refine keeps_call fun w kid w' hw hx => ?_
    obtain ⟨-, -, -, rfl⟩ := sem_getRand.mp hx
    exact ⟨hw.frame rfl (Int.le_refl _) fun _ _ hv _ => hv, trivial⟩
  intro kid _
  apply keeps_bind (keeps_answer fun jwk _ => trivial)
  intro jwk _
  apply keeps_bind keeps_unixTimestamp
  intro now hnow
  apply keeps_execute
  intro w db hw hdb
  exact hw.insert hnow hdb.applied

theorem keeps_rotateJwks {gen : JwkKeyPairAlg → Except ErrorResponse Bytes} :
    Keeps sem (KeysSign data keyOf) (rotateJwks data gen) fun _ => True := by
  apply keeps_bind keeps_rotateJwk
  intro _ _
  apply keeps_bind keeps_rotateJwk
  intro _ _
  apply keeps_bind keeps_rotateJwk
  intro _ _
  apply keeps_bind keeps_rotateJwk
  intro _ _
  apply keeps_bind keeps_cacheDel
  intro _ _
  apply keeps_bind keeps_cacheDel
  intro _ _
  apply keeps_bind keeps_cacheDel
  intro _ _
  apply keeps_bind keeps_cacheDel
  intro _ _
  exact keeps_cacheDel

theorem keeps_deleteJwk (hkid : ∀ alg, kid ≠ (keyOf alg).kid) :
    Keeps sem (KeysSign data keyOf) (deleteJwk kid) fun _ => True := by
  have hdelete : Keeps sem (KeysSign data keyOf)
      (execute [.delete .jwks fun j => j.kid == kid]) fun _ => True :=
    keeps_execute fun w db hw hdb => hw.delete hkid hdb.applied
  apply keeps_bind (keeps_tried hdelete)
  intro deleted _
  cases deleted with
  | error e => exact keeps_ret trivial
  | ok u =>
      apply keeps_bind (keeps_tried keeps_cacheDel)
      intro _ _
      exact keeps_ret trivial

/-- The rows may be old when the keys are deleted, but they do have the first keys. -/
theorem keeps_jwksCleanup : Keeps sem (KeysSign data keyOf) jwksCleanup fun _ => True := by
  apply keeps_bind keeps_unixTimestamp
  intro now _
  have hselect : Keeps sem (KeysSign data keyOf) (select .jwks fun _ => true) fun rows =>
      (∀ alg, Rauthy.first (keysOf alg rows) = some (keyOf alg)) ∧ (rows.map Jwk.kid).Nodup := by
    apply keeps_select
    intro w hw
    rw [List.filter_true]
    exact ⟨hw.first, hw.unique⟩
  apply keeps_bind (keeps_tried hselect)
  intro found hfound
  cases found with
  | error e => exact keeps_ret trivial
  | ok rows =>
      obtain ⟨hfirst, hu⟩ := hfound rows rfl
      apply keeps_forEach
      intro kid hkid
      apply keeps_deleteJwk
      rintro alg rfl
      exact first_not_toDelete (hfirst alg) hu hkid

theorem keeps_findLatest (typ : JwkKeyPairAlg) :
    Keeps sem (KeysSign data keyOf) (JwkKeyPair.findLatest data typ.asStr typ) fun kp =>
      JwkKeyPair.decrypt data (keyOf typ) typ = .ok kp := by
  apply keeps_cached (fun w hw => hw.del _ _)
  · intro w v kp hw hv hkp
    cases v <;> cases hkp
    exact hw.latest typ kp hv
  · have hselect : Keeps sem (KeysSign data keyOf) (select .jwks fun _ => true) fun rows =>
        Rauthy.first (keysOf typ rows) = some (keyOf typ) := by
      apply keeps_select
      intro w hw
      rw [List.filter_true]
      exact hw.first typ
    apply keeps_bind hselect
    intro rows hrows
    have hunwrap : Keeps sem (KeysSign data keyOf)
        (unwrap "No latest JWK found - database corrupted?" (Rauthy.first (keysOf typ rows)) :
          M ErrorResponse Jwk) fun jwk => jwk = keyOf typ := by
      rw [hrows]
      exact keeps_ret rfl
    apply keeps_bind hunwrap
    rintro _ rfl
    exact keeps_answer fun kp hkp => hkp
  · exact fun w kp hkp hw => hw.putLatest hkp

theorem keeps_find (kid : String) :
    Keeps sem (KeysSign data keyOf) (JwkKeyPair.find data kid) fun kp =>
      ∀ alg, kid = (keyOf alg).kid → JwkKeyPair.decrypt data (keyOf alg) alg = .ok kp := by
  apply keeps_cached (fun w hw => hw.del _ _)
  · intro w v kp hw hv hkp
    cases v <;> cases hkp
    rintro alg rfl
    exact hw.byKid alg kp hv
  · have hfetch : Keeps sem (KeysSign data keyOf) (fetchOne .jwks fun j => j.kid == kid) fun jwk =>
        ∀ alg, kid = (keyOf alg).kid → jwk = keyOf alg ∧ jwk.signature = alg := by
      apply keeps_fetchOne
      rintro w jwk hw hjwk hkid alg rfl
      obtain ⟨hmem, hsig⟩ := hw.mem alg
      obtain rfl := hw.unique.eq hjwk hmem (beq_iff_eq.mp hkid)
      exact ⟨rfl, hsig⟩
    apply keeps_bind hfetch
    intro jwk hjwk
    apply keeps_answer
    intro kp hkp alg hkid
    obtain ⟨rfl, hsig⟩ := hjwk alg hkid
    rwa [hsig] at hkp
  · exact fun w kp hkp hw => hw.putKid hkp

theorem keeps_fromKeyPair :
    Keeps sem (KeysSign data keyOf) (JWKSPublicKey.fromKeyPair data kp) fun key =>
      JWKSPublicKey.fromKeyPair data kp = ret key := by
  have hsilent : Within (fun _ => False) (JWKSPublicKey.fromKeyPair data kp) := by
    rw [JWKSPublicKey.fromKeyPair]
    cases kp.typ <;> exact within_bind (within_okOr _ _) fun _ => within_ret _
  cases h : JWKSPublicKey.fromKeyPair data kp with
  | ret key => exact keeps_ret rfl
  | fail e => exact keeps_fail
  | call o k =>
      rw [h] at hsilent
      exact hsilent.1.elim

theorem keeps_publicKeys (certs : List Jwk) :
    Keeps sem (KeysSign data keyOf) (publicKeys data certs) fun keys =>
      ∀ cert ∈ certs, ∃ kp key, JwkKeyPair.decrypt data cert cert.signature = .ok kp ∧
        JWKSPublicKey.fromKeyPair data kp = ret key ∧ key ∈ keys := by
  induction certs with
  | nil => exact keeps_ret fun cert hcert => absurd hcert List.not_mem_nil
  | cons cert certs ih =>
      apply keeps_bind (keeps_answer fun kp hkp => hkp)
      intro kp hkp
      apply keeps_bind keeps_fromKeyPair
      intro key hkey
      apply keeps_bind ih
      intro keys hkeys
      apply keeps_ret
      rw [List.forall_mem_cons]
      refine ⟨⟨kp, key, hkp, hkey, List.mem_cons_self⟩, fun cert' hcert' => ?_⟩
      obtain ⟨kp', key', hkp', hkey', hmem⟩ := hkeys cert' hcert'
      exact ⟨kp', key', hkp', hkey', List.mem_cons_of_mem _ hmem⟩

theorem keeps_findPk :
    Keeps sem (KeysSign data keyOf) (JWKS.findPk data) (Publishes data keyOf) := by
  apply keeps_cached (fun w hw => hw.del _ _)
  · intro w v keys hw hv hkeys
    cases v <;> cases hkeys
    exact hw.published keys hv
  · have hselect : Keeps sem (KeysSign data keyOf) (select .jwks fun _ => true) fun rows =>
        ∀ alg, keyOf alg ∈ rows ∧ (keyOf alg).signature = alg := by
      apply keeps_select
      intro w hw
      rw [List.filter_true]
      exact hw.mem
    apply keeps_bind hselect
    intro rows hrows
    apply keeps_mono (keeps_publicKeys rows)
    intro keys hkeys alg
    obtain ⟨hmem, hsig⟩ := hrows alg
    obtain ⟨kp, key, hkp, hkey⟩ := hkeys _ hmem
    rw [hsig] at hkp
    exact ⟨kp, key, hkp, hkey⟩
  · exact fun w keys hkeys hw => hw.putKeys hkeys

/-! ### Every interleaving -/

abbrev JwkLog := Log JwkCall Op Op.Res (Except (Fault ErrorResponse) JwkAnswer)

abbrev JwkEvent := Event JwkCall Op Op.Res (Except (Fault ErrorResponse) JwkAnswer)

abbrev JwkPool := Pool JwkCall Op Op.Res World (Fault ErrorResponse) JwkAnswer

theorem JwkCall.keeps {q : JwkCall} (hq : q.Apart) :
    Keeps sem (KeysSign data keyOf) (q.prog data) (q.Answers data keyOf) := by
  cases q with
  | rotate gen => exact keeps_bind keeps_rotateJwks fun _ _ => keeps_ret trivial
  | cleanup => exact keeps_bind keeps_jwksCleanup fun _ _ => keeps_ret trivial
  | sign typ => exact keeps_bind (keeps_findLatest typ) fun kp hkp => keeps_ret hkp
  | verify kid => exact keeps_bind (keeps_find kid) fun kp hkp => keeps_ret hkp
  | publish => exact keeps_bind keeps_findPk fun keys hkeys => keeps_ret hkeys
  | aside p =>
      obtain ⟨ts, cs, htouches, hrows, hkey, hkeys⟩ := hq
      have hp : Keeps sem (KeysSign data keyOf) p fun _ => True := by
        apply keeps_of_touches htouches
        intro w w' hframe hw
        apply hw.frame (hframe.db _ hrows) hframe.clock
        rintro k v hv (⟨kp, rfl⟩ | ⟨keys, rfl⟩)
        · exact (hframe.cache _ _ _ hv).resolve_right hkey
        · exact (hframe.cache _ _ _ hv).resolve_right hkeys
      exact keeps_bind hp fun _ _ => keeps_ret trivial

/-- **The keys that sign are the same for as long as the server lives**, in every interleaving of
rotations, cleanups and whatever else the server does: tokens are signed with the first keys of the
start, a lookup by their names finds them, and every list that is published has them. -/
theorem signing_keys_fixed {C : World → JwkLog → JwkEvent → Prop}
    (hC : ∀ w l t q, C w l (.start t q) → q.Apart) {w₀ : World} (hu : UniqueKids w₀)
    (hpast : ∀ k ∈ w₀.db .jwks, k.createdAt ≤ w₀.clock / 1000)
    (hcache : ∀ k, w₀.cache .c12hr k = none)
    (hfirst : ∀ alg, first (keysOf alg (w₀.db .jwks)) = some (keyOf alg))
    {P : JwkPool} (hrun : Run (JwkCall.prog data) sem C (init w₀) P) :
    (∀ alg, keyOf alg ∈ P.world.db .jwks) ∧
      ∀ t a, .done t (.ok a) ∈ P.log → ∃ q, .start t q ∈ P.log ∧ q.Answers data keyOf a := by
  have hinit : KeysSign data keyOf w₀ := by
    refine ⟨hfirst, hu, fun alg => ?_, fun alg kp hkp => ?_, fun alg kp hkp => ?_,
      fun keys hkeys => ?_⟩
    · exact hpast _ (mem_keysOf.mp (first_mem (hfirst alg))).1
    · rw [hcache] at hkp
      cases hkp
    · rw [hcache] at hkp
      cases hkp
    · rw [hcache] at hkeys
      cases hkeys
  obtain ⟨hworld, -, hanswers⟩ :=
    Run.keeps hinit (fun w l t q h => JwkCall.keeps (hC w l t q h)) hrun
  exact ⟨fun alg => (hworld.mem alg).1, hanswers⟩

end Keys

/-! ### A token that is signed during a rotation -/

/-- A key of each algorithm. -/
def firstKey (alg : JwkKeyPairAlg) : Jwk :=
  { kid := alg.asStr, createdAt := 100, signature := alg, encKeyId := "key", jwk := [] }

def fourKeys : List Jwk := [firstKey .rs256, firstKey .rs384, firstKey .rs512, firstKey .edDSA]

/-- Nothing is done aside. -/
def startsJwkCall : JwkEvent → Bool
  | .start _ (.aside _) => false
  | _ => true

/-- The rotation has saved its first key when the other request looks for the key to sign with. -/
def signMoves : List (Move JwkCall Choice) :=
  [.start 0 (.rotate fun _ => .ok []), .op 0 (.rand (String.ofList (List.replicate 24 'a'))),
    .op 0 (.time 8000000000), .op 0 .ok, .start 1 (.sign .rs256), .op 1 .ok, .op 1 .ok, .op 1 .ok,
    .done 1]

theorem signing_keys_fixed_rotated :
    ∃ P : JwkPool, Run (JwkCall.prog sampleState) sem (fun _ _ e => startsJwkCall e = true)
        (init (keyWorld fourKeys)) P ∧
      (∃ k ∈ keysOf .rs256 (P.world.db .jwks), 100 < k.createdAt) ∧
      (∀ alg, firstKey alg ∈ P.world.db .jwks) ∧
      ∃ a q, .done 1 (.ok a) ∈ P.log ∧ .start 1 q ∈ P.log ∧ q.Answers sampleState firstKey a := by
  obtain ⟨P, hrun, hcheck⟩ := exists_run_of_moves
    (C := fun _ _ e => startsJwkCall e = true) (JwkCall.prog sampleState) Op.run
    (fun _ _ e => startsJwkCall e) (keyWorld fourKeys) signMoves
    (fun P => decide (∃ k ∈ keysOf .rs256 (P.world.db .jwks), 100 < k.createdAt) &&
      (Log.doneOf 1 P.log).any Except.isOk) (by decide +kernel) (fun _ _ _ h => h)
  rw [Bool.and_eq_true, decide_eq_true_eq, Option.any_eq_true] at hcheck
  obtain ⟨hnewer, r, hdone, hok⟩ := hcheck
  have hfirst : ∀ alg, first (keysOf alg ((keyWorld fourKeys).db .jwks)) = some (firstKey alg) := by
    intro alg
    cases alg <;> decide
  have hapart : ∀ (w : World) (l : JwkLog) t q, startsJwkCall (.start t q) = true → q.Apart := by
    intro w l t q h
    cases q <;> trivial
  obtain ⟨hkept, hanswers⟩ :=
    signing_keys_fixed hapart (by decide) (by decide) (fun _ => rfl) hfirst hrun
  cases r with
  | error e => cases hok
  | ok a =>
      have hmem := Log.mem_of_doneOf hdone
      obtain ⟨q, hstart, ha⟩ := hanswers 1 a hmem
      exact ⟨P, hrun, hnewer, hkept, a, q, hmem, hstart, ha⟩

end Rauthy
