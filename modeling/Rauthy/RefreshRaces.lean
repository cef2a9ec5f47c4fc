/-
Rauthy/RefreshRaces.lean

Refreshes and invalidations at the same time.  A refresh reads the row of its token, notes the login
of the user, and writes the row back with an earlier end.  An invalidation that comes in between
deletes the row or ends it, and what is written back undoes this.

A row is also written when a token is issued.  This is the row of no earlier token: the noise of the
signature has been drawn two operations before, and it is fresh.

Main result: `invalidated_for_good`, in every interleaving in which no row is written back that has
been invalidated since it was read.
-/
import Rauthy.CacheTickets
import Rauthy.RefreshRotation

namespace Rauthy

open Prog Pool

/-! ### What the requests write -/

/-- The request has found this row. -/
def FoundRow (rt : RefreshToken) (tr : List (Seen Op Op.Res)) : Prop :=
  ∃ p rest, ⟨.select .refreshTokens p, .ok (rt :: rest)⟩ ∈ tr

theorem FoundRow.mono {rt : RefreshToken} {tr tr' : List (Seen Op Op.Res)} (h : FoundRow rt tr)
    (hs : ∀ v ∈ tr, v ∈ tr') : FoundRow rt tr' := by
  obtain ⟨p, rest, h⟩ := h
  exact ⟨p, rest, hs _ h⟩

/-- The noise has been drawn, and nothing but the clock has been read since. -/
def JustDrawn (noise : String) (tr : List (Seen Op Op.Res)) : Prop :=
  ∃ tr₁, tr = ⟨.getRand 16, noise⟩ :: tr₁ ∨
    ∃ ms : Int, tr = ⟨.now, ms⟩ :: ⟨.getRand 16, noise⟩ :: tr₁

theorem justDrawn_cons {noise : String} {s : Seen Op Op.Res} {tr : List (Seen Op Op.Res)}
    (h : JustDrawn noise (s :: tr)) : s = ⟨.getRand 16, noise⟩ ∨ JustDrawn noise tr := by
  obtain ⟨tr₁, h | ⟨ms, h⟩⟩ := h
  · exact .inl (List.cons.inj h).1
  · exact .inr ⟨tr₁, .inl (List.cons.inj h).2⟩

/-- Rows end earlier or are deleted, a row is written back, or that of a new token is added. -/
inductive RowWrite (data : AppState) (tr : List (Seen Op Op.Res)) : List DbWrite → Prop where
  | expires {p : RefreshToken → Bool} {n : Int} (hp : ∀ r, p r = true → n ≤ r.exp) :
      RowWrite data tr [.update .refreshTokens p fun r => { r with exp := n }]
  | deletes {p : RefreshToken → Bool} : RowWrite data tr [.delete .refreshTokens p]
  | rotates {rt : RefreshToken} {n : Int} (hrt : FoundRow rt tr) (hn : n ≤ rt.exp) :
      RowWrite data tr [.upsert .refreshTokens { rt with exp := n }]
  | creates {noise token : String} {r : RefreshToken} (hdrawn : JustDrawn noise tr)
      (hstored : StoredAs data noise token r.id) : RowWrite data tr [.upsert .refreshTokens r]

def RowStep (data : AppState) (tr : List (Seen Op Op.Res)) (s : Seen Op Op.Res) : Prop :=
  ∀ ss, s.1 = .execute ss → (∀ s ∈ ss, s.table ≠ .refreshTokens) ∨ RowWrite data tr ss

section Sees

variable {α : Type} {data : AppState} {tr : List (Seen Op Op.Res)}

theorem rowStep_of_touches {ts : List Table} {cs : List (CacheName × Slot)} {o : Op}
    (hts : Table.refreshTokens ∉ ts) (ho : o.Touches ts cs) (tr : List (Seen Op Op.Res))
    (x : o.Res) : RowStep data tr ⟨o, x⟩ := by
  intro ss he
  obtain rfl : o = .execute ss := he
  exact .inl fun s hs h => hts (h ▸ ho s hs)

theorem rowStep_allows : Allows (RowStep data) [] TokenSet.slots :=
  fun _ ho _ tr x => rowStep_of_touches (by simp) ho tr x

theorem sees_rowAside {ε : Type} {p : Prog Op Op.Res ε α} {ts : List Table}
    {cs : List (CacheName × Slot)} (hp : Touches ts cs p) (hts : Table.refreshTokens ∉ ts) :
    Sees Op.Possible (RowStep data) p (fun _ _ => True) tr :=
  sees_of_within hp fun _ ho tr x _ => rowStep_of_touches hts ho tr x

theorem sees_rowNow : Sees Op.Possible (RowStep data) (unixTimestamp : M ErrorResponse Int)
    (fun _ _ => True) tr := by
  have h : Touches [] [] (unixTimestamp : M ErrorResponse Int) := touches_unixTimestamp
  exact sees_rowAside h (by simp)

theorem sees_findRow (token : String) :
    Sees Op.Possible (RowStep data) (findRefreshToken token) (fun rt tr' => FoundRow rt tr')
      tr := by
  refine sees_bind sees_unwrap fun id tr₁ _ _ => ?_
  have hfind : Sees Op.Possible (RowStep data) (RefreshToken.find id)
      (fun rt tr' => FoundRow rt tr') tr₁ := by
    refine sees_mapErr (sees_mono (sees_fetchOne fun x ss he => by cases he) fun rt tr₂ _ h => ?_)
    obtain ⟨⟨rest, htr⟩, -⟩ := h
    rw [htr]
    exact ⟨_, rest, List.mem_cons_self⟩
  refine sees_bind hfind fun rt tr₂ _ h₂ => ?_
  refine sees_bind sees_rowNow fun now tr₃ hsub₃ _ => ?_
  split
  · refine sees_bind (sees_execute fun x ss he => ?_) fun _ _ _ _ => sees_fail
    obtain rfl := Op.execute.inj he
    exact .inr .deletes
  · exact sees_ret (h₂.mono hsub₃)

theorem sees_expireRow {rt : RefreshToken} (h : FoundRow rt tr) :
    Sees Op.Possible (RowStep data) (expireRefreshToken data rt) (fun _ _ => True) tr := by
  refine sees_bind sees_rowNow fun now tr₁ hsub₁ _ => ?_
  simp only
  split
  · next hlong =>
      refine sees_mono (sees_execute fun x ss he => ?_) fun _ _ _ _ => trivial
      obtain rfl := Op.execute.inj he
      exact .inr (.rotates (h.mono hsub₁) (by omega))
  · exact sees_ret trivial

theorem sees_rowTokens {user : User} {client : Client} {fp nonce scopes : Option String}
    {acf : AuthCodeFlow} {dcf : DeviceCodeFlow} :
    Sees Op.Possible (RowStep data)
      (TokenSet.fromUser data user client fp nonce scopes acf dcf) (fun _ _ => True) tr := by
  refine sees_mono (sees_fromUser rowStep_allows fun tr noise token id iat ms lt x hs ss he => ?_)
    fun _ _ _ _ => trivial
  obtain rfl := Op.execute.inj he
  cases dcf with
  | yes did => exact .inl (by simp [refreshRow, DbWrite.table])
  | no =>
      obtain ⟨kp, hsigned⟩ := hs.signed
      exact .inr (.creates ⟨tr, .inr ⟨ms, rfl⟩⟩ ⟨⟨kp, _, hsigned⟩, hs.id⟩)

theorem sees_rowRefresh (req : HttpRequest) (payload : TokenRequest) :
    Sees Op.Possible (RowStep data) (grantTypeRefresh data req payload) (fun _ _ => True) tr := by
  refine sees_bind sees_okOr fun token _ _ _ => ?_
  refine sees_bind sees_answer fun idSecret _ _ _ => ?_
  refine sees_bind (sees_rowAside (Client.findMaybeEphemeral_touches data _) (by simp))
    fun client _ _ _ => ?_
  refine sees_bind sees_answer fun origin _ _ _ => ?_
  refine sees_bind (sees_rowAside (checkSecret_touches _ _ _ _) (by simp)) fun _ _ _ _ => ?_
  refine sees_bind sees_answer fun _ _ _ _ => ?_
  refine sees_bind (F := fun _ _ => True) ?_ fun _ _ _ _ => sees_ret trivial
  refine sees_bind sees_answer fun kid _ _ _ => ?_
  refine sees_bind (sees_rowAside (JwkKeyPair.find_touches data kid) (by simp)) fun kp _ _ _ => ?_
  refine sees_bind sees_rowNow fun now _ _ _ => ?_
  refine sees_bind sees_answer fun claims _ _ _ => ?_
  refine sees_bind sees_throwIf fun _ _ _ _ => ?_
  refine sees_bind (F := fun _ _ => True) (sees_ret trivial) fun _ _ _ _ => ?_
  refine sees_bind sees_throwIf fun _ _ _ _ => ?_
  refine sees_bind sees_answer fun headerOrigin _ _ _ => ?_
  refine sees_bind (sees_rowAside (refreshProof_touches data req _ _) (by simp)) fun _ _ _ _ => ?_
  refine sees_bind (sees_findRow token) fun rt tr₁ _ h₁ => ?_
  refine sees_bind (sees_rowAside (refreshUser_touches data _) (by simp)) fun user tr₂ hsub₂ _ => ?_
  refine sees_bind (sees_expireRow (h₁.mono hsub₂)) fun _ _ _ _ => ?_
  exact sees_bind sees_rowTokens fun _ _ _ _ => sees_ret trivial

/-- The rows that `f` selects end now. -/
theorem sees_rowInvalidate {f : RefreshToken → Bool} :
    Sees Op.Possible (RowStep data) (do
        let now ← unixTimestamp
        execute [.update .refreshTokens (fun r => decide (r.exp > now) && f r)
          fun r => { r with exp := now }]) (fun _ _ => True) tr := by
  refine sees_bind sees_rowNow fun now _ _ _ => ?_
  refine sees_mono (sees_execute fun x ss he => ?_) fun _ _ _ _ => trivial
  obtain rfl := Op.execute.inj he
  refine .inr (.expires fun r hr => ?_)
  have hlt := of_decide_eq_true (Bool.and_eq_true_iff.mp hr).1
  omega

theorem sees_refreshReq (q : RefreshReq) :
    Sees Op.Possible (RowStep data) (q.prog data) (fun _ _ => True) [] := by
  cases q with
  | issue user client fp nonce scopes acf dcf =>
      exact sees_bind sees_rowTokens fun _ _ _ _ => sees_ret trivial
  | refresh req payload =>
      exact sees_bind (sees_rowRefresh req payload) fun _ _ _ _ => sees_ret trivial
  | invalidateAll =>
      have hall : RefreshToken.invalidateAll = (do
          let now ← unixTimestamp
          execute [.update .refreshTokens (fun r => decide (r.exp > now) && true)
            fun r => { r with exp := now }]) := by
        simp only [RefreshToken.invalidateAll, Bool.and_true]
      refine sees_bind (F := fun _ _ => True) ?_ fun _ _ _ _ => sees_ret trivial
      rw [hall]
      exact sees_rowInvalidate
  | invalidateForUser uid =>
      exact sees_bind sees_rowInvalidate fun _ _ _ _ => sees_ret trivial
  | cleanup =>
      refine sees_bind (F := fun _ _ => True) ?_ fun _ _ _ _ => sees_ret trivial
      refine sees_bind sees_rowNow fun now _ _ _ => ?_
      refine sees_ignoreErr (sees_execute fun x ss he => ?_)
      obtain rfl := Op.execute.inj he
      exact .inr .deletes

end Sees

/-! ### The rows of a run -/

/-- There has been a row with this id, of this user. -/
def KnownRow (w₀ : World) (l : RefreshLog) (id uid : String) : Prop :=
  (∃ r ∈ w₀.db .refreshTokens, r.id = id ∧ r.userId = uid) ∨
    ∃ t r x, .op t (.execute [.upsert .refreshTokens r]) x ∈ l ∧ r.id = id ∧ r.userId = uid

/-- The step invalidates the rows of the user from `n` on: it ends all rows, or those of the user,
or it deletes them. -/
inductive Invalidates (uid : String) (n : Int) : RefreshEvent → Prop where
  | all {t : ℕ} : Invalidates uid n (.op t (.execute [.update .refreshTokens
      (fun r => decide (r.exp > n)) fun r => { r with exp := n }]) (.ok ()))
  | forUser {t : ℕ} : Invalidates uid n (.op t (.execute [.update .refreshTokens
      (fun r => decide (r.exp > n) && r.userId == uid) fun r => { r with exp := n }])
      (.ok ()))
  | allForUser {t : ℕ} : Invalidates uid n (.op t (.execute [.delete .refreshTokens
      fun r => r.userId == uid]) (.ok ()))

/-- Since request `t` has read the row, it has been invalidated. -/
def EndedSince (t : ℕ) (rt : RefreshToken) (l : RefreshLog) : Prop :=
  ∃ l₁ e l₂ n, l = l₁ ++ e :: l₂ ∧ FoundRow rt (seenBy t l₂) ∧ Invalidates rt.userId n e

/-- A row that is written back has not been invalidated since it was read. -/
def RowsCurrent (_ : World) (l : RefreshLog) (e : RefreshEvent) : Prop :=
  ∀ t r x, e = .op t (.execute [.upsert .refreshTokens r]) x →
    ∀ rt, FoundRow rt (seenBy t l) → rt.id = r.id → ¬ EndedSince t rt l

/-- What holds in every state: the rows are those of tokens, which were signed with noise that
nobody has just drawn. -/
structure RowsInv (data : AppState) (w₀ w : World) (l : RefreshLog) : Prop where
  known : ∀ id uid, KnownRow w₀ l id uid → ∃ noise token, IsNoise noise ∧ noise ∈ w.issued ∧
    StoredAs data noise token id ∧ ∀ t, ¬ JustDrawn noise (seenBy t l)
  owner : ∀ id uid uid', KnownRow w₀ l id uid → KnownRow w₀ l id uid' → uid = uid'
  single : ∀ t t' noise, JustDrawn noise (seenBy t l) → JustDrawn noise (seenBy t' l) → t = t'
  drawn : ∀ t noise, JustDrawn noise (seenBy t l) → IsNoise noise ∧ noise ∈ w.issued
  found : ∀ t rt, FoundRow rt (seenBy t l) → KnownRow w₀ l rt.id rt.userId
  rows : ∀ r ∈ w.db .refreshTokens, KnownRow w₀ l r.id r.userId
  unique : UniqueRows w

section Inv

variable {data : AppState} {w₀ w w' : World} {l : RefreshLog} {t : ℕ} {o : Op} {x : o.Res}
  {tr : List (Seen Op Op.Res)} {id uid : String}
  {db : Db}

theorem KnownRow.cons (h : KnownRow w₀ l id uid) (e : RefreshEvent) :
    KnownRow w₀ (e :: l) id uid := by
  rcases h with h | ⟨t, r, x, hmem, hid⟩
  · exact .inl h
  · exact .inr ⟨t, r, x, List.mem_cons_of_mem _ hmem, hid⟩

/-- A row is known from before, or the last operation has written it. -/
theorem KnownRow.op (h : KnownRow w₀ (.op t o x :: l) id uid) : KnownRow w₀ l id uid ∨
    ∃ r, o = .execute [.upsert .refreshTokens r] ∧ r.id = id ∧ r.userId = uid := by
  rcases h with h | ⟨t', r, x', hmem, hid⟩
  · exact .inl (.inl h)
  rcases List.mem_cons.mp hmem with he | hmem
  · cases he
    exact .inr ⟨r, rfl, hid⟩
  · exact .inl (.inr ⟨t', r, x', hmem, hid⟩)

theorem EndedSince.cons {rt : RefreshToken} (h : EndedSince t rt l) (e : RefreshEvent) :
    EndedSince t rt (e :: l) := by
  obtain ⟨l₁, e₁, l₂, n, rfl, hfound, hinv⟩ := h
  exact ⟨e :: l₁, e₁, l₂, n, rfl, hfound, hinv⟩

/-- A row was found before, or it has just been read from the table. -/
theorem FoundRow.op {t' : ℕ} {rt : RefreshToken} (hx : sem o w x w')
    (h : FoundRow rt (seenBy t' (.op t o x :: l))) :
    FoundRow rt (seenBy t' l) ∨ rt ∈ w.db .refreshTokens := by
  by_cases htt : t' = t
  · subst htt
    rw [seenBy_op_self] at h
    obtain ⟨p, rest, hmem⟩ := h
    rcases List.mem_cons.mp hmem with he | hmem
    · cases he
      rcases (sem_select.mp hx).2 with hrows | ⟨e, he⟩
      · have hin : rt ∈ (w.db .refreshTokens).filter p := by
          rw [← Except.ok.inj hrows]
          exact List.mem_cons_self
        exact .inr (List.mem_filter.mp hin).1
      · cases he
    · exact .inl ⟨p, rest, hmem⟩
  · rw [seenBy_op_of_ne htt] at h
    exact .inl h

theorem RowsInv.init (h : RowsSigned data w₀) : RowsInv data w₀ w₀ [] where
  known id uid hid := by
    rcases hid with ⟨r, hr, rfl, -⟩ | ⟨t, r, x, hmem, -⟩
    · obtain ⟨noise, token, hn, hin, hby⟩ := h.signed r hr
      refine ⟨noise, token, hn, hin, hby, fun t hdrawn => ?_⟩
      obtain ⟨tr₁, he | ⟨ms, he⟩⟩ := hdrawn
      · cases he
      · cases he
    · cases hmem
  owner id uid uid' hid hid' := by
    rcases hid with ⟨r, hr, rfl, rfl⟩ | ⟨t, r, x, hmem, -⟩
    · rcases hid' with ⟨r', hr', hid', rfl⟩ | ⟨t, r', x, hmem, -⟩
      · rw [h.unique r' hr' r hr hid']
      · cases hmem
    · cases hmem
  single t t' noise hdrawn := by
    obtain ⟨tr₁, he | ⟨ms, he⟩⟩ := hdrawn
    · cases he
    · cases he
  drawn t noise hdrawn := by
    obtain ⟨tr₁, he | ⟨ms, he⟩⟩ := hdrawn
    · cases he
    · cases he
  found t rt hfound := by
    obtain ⟨p, rest, hmem⟩ := hfound
    cases hmem
  rows r hr := .inl ⟨r, hr, rfl, rfl⟩
  unique := h.unique

theorem apply_of_applyAll {s : DbWrite} {db' : Db} (h : applyAll [s] db = some db') :
    s.apply db = some db' := by
  simpa [applyAll, Option.bind_eq_some_iff] using h

theorem Ages.rowBefore (h : Ages data w { w with db }) {r' : RefreshToken}
    (hr' : r' ∈ db .refreshTokens) :
    ∃ r ∈ w.db .refreshTokens, r.id = r'.id ∧ r.userId = r'.userId ∧ r'.exp ≤ r.exp := by
  rcases h.rows r' hr' with hold | ⟨noise, token, -, hfresh, hin, -⟩
  · exact hold
  · exact absurd hin hfresh

/-- A row after a write was there before, with no earlier end, or it has just been written. -/
theorem RowWrite.rows {ss : List DbWrite} (h : RowWrite data tr ss)
    (hdb : applyAll ss w.db = some db) : ∀ r' ∈ db .refreshTokens,
      (∃ r ∈ w.db .refreshTokens, r.id = r'.id ∧ r.userId = r'.userId ∧ r'.exp ≤ r.exp) ∨
        ss = [.upsert .refreshTokens r'] := by
  intro r' hr'
  have hupsert : ∀ {r : RefreshToken}, applyAll [.upsert .refreshTokens r] w.db = some db →
      (∃ r₁ ∈ w.db .refreshTokens, r₁.id = r'.id ∧ r₁.userId = r'.userId ∧ r'.exp ≤ r₁.exp) ∨
        r' = r := fun hdb =>
    ((mem_upsert (apply_of_applyAll hdb)).mp hr').imp_left fun h =>
      ⟨r', h.1, rfl, rfl, Int.le_refl _⟩
  cases h with
  | expires hp =>
      have hages : Ages data w { w with db } := ages_expire hp (apply_of_applyAll hdb)
      exact .inl (hages.rowBefore hr')
  | deletes =>
      have hages : Ages data w { w with db } := ages_delete (apply_of_applyAll hdb)
      exact .inl (hages.rowBefore hr')
  | rotates hrt hn => exact (hupsert hdb).imp_right fun h => by rw [h]
  | creates hdrawn hstored => exact (hupsert hdb).imp_right fun h => by rw [h]

theorem RowWrite.unique {ss : List DbWrite} (h : RowWrite data tr ss)
    (hdb : applyAll ss w.db = some db) (hu : UniqueRows w) : UniqueRows { w with db } := by
  cases h with
  | expires hp =>
      have hages : Ages data w { w with db } := ages_expire hp (apply_of_applyAll hdb)
      exact hages.unique hu
  | deletes =>
      have hages : Ages data w { w with db } := ages_delete (apply_of_applyAll hdb)
      exact hages.unique hu
  | rotates hrt hn => exact unique_upsert (apply_of_applyAll hdb) hu
  | creates hdrawn hstored => exact unique_upsert (apply_of_applyAll hdb) hu

/-- The rows have not changed, or they have been written. -/
theorem rows_sem (hx : sem o w x w') (hG : RowStep data tr ⟨o, x⟩) :
    w'.db .refreshTokens = w.db .refreshTokens ∨ ∃ ss db, o = .execute ss ∧ RowWrite data tr ss ∧
      applyAll ss w.db = some db ∧ w' = { w with db } := by
  cases o with
  | execute ss =>
      rcases sem_execute.mp hx with ⟨e, -, rfl⟩ | ⟨db, hdb, rfl⟩
      · exact .inl rfl
      rcases hG ss rfl with hnone | hwrite
      · exact .inl (applyAll_frame hdb.applied hnone)
      · exact .inr ⟨ss, db, rfl, hwrite, hdb.applied, rfl⟩
  | _ => exact .inl (sem_table hx List.not_mem_nil)

/-- A row that is written is that of a token that had one, or that has just been signed. -/
theorem RowsInv.written (hI : RowsInv data w₀ w l) {r : RefreshToken}
    {x : Except ErrorResponse Unit}
    (hG : RowStep data (seenBy t l) ⟨.execute [.upsert .refreshTokens r], x⟩) :
    KnownRow w₀ l r.id r.userId ∨
      ∃ noise token, JustDrawn noise (seenBy t l) ∧ StoredAs data noise token r.id := by
  rcases hG _ rfl with hnone | hwrite
  · exact absurd rfl (hnone _ (List.mem_singleton_self _))
  cases hwrite with
  | rotates hrt hn =>
      have hknown := hI.found t _ hrt
      exact .inl hknown
  | creates hdrawn hstored => exact .inr ⟨_, _, hdrawn, hstored⟩

/-- The row of a token that has just been signed is that of no other one. -/
theorem RowsInv.fresh (hI : RowsInv data w₀ w l) (hd : SuffixesDistinct data) {noise token : String}
    (hdrawn : JustDrawn noise (seenBy t l)) (hstored : StoredAs data noise token id) :
    ¬ KnownRow w₀ l id uid := by
  intro hid
  obtain ⟨noise', token', hnoise, -, hby, hno⟩ := hI.known id uid hid
  rw [hd _ _ _ _ _ (hI.drawn t _ hdrawn).1 hnoise hstored hby] at hdrawn
  exact hno t hdrawn

/-- Who has just drawn noise had it before, or it is fresh. -/
theorem drawn_op {t' : ℕ} {noise : String} (hx : sem o w x w')
    (h : JustDrawn noise (seenBy t' (.op t o x :: l))) : JustDrawn noise (seenBy t' l) ∨
      t' = t ∧ IsNoise noise ∧ noise ∉ w.issued ∧ noise ∈ w'.issued := by
  by_cases htt : t' = t
  · subst htt
    rw [seenBy_op_self] at h
    rcases justDrawn_cons h with he | h
    · cases he
      obtain ⟨hfresh, hlen, hall, rfl⟩ := sem_getRand.mp hx
      exact .inr ⟨rfl, ⟨hlen, hall⟩, hfresh, List.mem_cons_self⟩
    · exact .inl h
  · rw [seenBy_op_of_ne htt] at h
    exact .inl h

/-- **One operation keeps the invariant.** -/
theorem RowsInv.op (hI : RowsInv data w₀ w l) (hd : SuffixesDistinct data) (hx : sem o w x w')
    (hG : RowStep data (seenBy t l) ⟨o, x⟩) : RowsInv data w₀ w' (.op t o x :: l) := by
  have hissued : ∀ s ∈ w.issued, s ∈ w'.issued := fun s hs => sem_issued hx hs
  refine ⟨fun id uid hid => ?_, fun id uid uid' hid hid' => ?_, fun t₁ t₂ noise h₁ h₂ => ?_,
    fun t' noise h => ?_, fun t' rt h => ?_, fun r hr => ?_, ?_⟩
  · have hold : KnownRow w₀ l id uid → ∃ noise token, IsNoise noise ∧ noise ∈ w'.issued ∧
        StoredAs data noise token id ∧ ∀ t', ¬ JustDrawn noise (seenBy t' (.op t o x :: l)) := by
      intro hid
      obtain ⟨noise, token, hn, hin, hby, hno⟩ := hI.known id uid hid
      refine ⟨noise, token, hn, hissued _ hin, hby, fun t' h => ?_⟩
      rcases drawn_op hx h with h | ⟨-, -, hfresh, -⟩
      · exact hno t' h
      · exact hfresh hin
    rcases hid.op with hid | ⟨r, rfl, rfl, rfl⟩
    · exact hold hid
    rcases hI.written hG with hid | ⟨noise, token, hjust, hby⟩
    · exact hold hid
    · -- the row of a new token: its noise has now been used
      obtain ⟨hn, hin⟩ := hI.drawn _ noise hjust
      refine ⟨noise, token, hn, hissued _ hin, hby, fun t' h => ?_⟩
      by_cases htt : t' = t
      · subst htt
        rw [seenBy_op_self] at h
        obtain ⟨tr₁, he | ⟨ms, he⟩⟩ := h
        · cases he
        · cases he
      · rw [seenBy_op_of_ne htt] at h
        exact htt (hI.single _ _ noise h hjust)
  · -- who has written the row knows whose it is
    have hnew : ∀ {uid r}, KnownRow w₀ l id uid → o = .execute [.upsert .refreshTokens r] →
        r.id = id → uid = r.userId := by
      rintro uid r hold rfl rfl
      rcases hI.written hG with hid | ⟨noise, token, hjust, hby⟩
      · exact hI.owner _ _ _ hold hid
      · exact absurd hold (hI.fresh hd hjust hby)
    rcases hid.op with hid | ⟨r, ho, hrid, rfl⟩
    · rcases hid'.op with hid' | ⟨r', ho', hrid', rfl⟩
      · exact hI.owner id uid uid' hid hid'
      · exact hnew hid ho' hrid'
    · rcases hid'.op with hid' | ⟨r', ho', hrid', rfl⟩
      · exact (hnew hid' ho hrid).symm
      · rw [ho] at ho'
        cases ho'
        rfl
  · rcases drawn_op hx h₁ with h₁ | ⟨rfl, -, hfresh, -⟩
    · rcases drawn_op hx h₂ with h₂ | ⟨-, -, hfresh, -⟩
      · exact hI.single _ _ noise h₁ h₂
      · exact absurd (hI.drawn _ noise h₁).2 hfresh
    · rcases drawn_op hx h₂ with h₂ | ⟨rfl, -⟩
      · exact absurd (hI.drawn _ noise h₂).2 hfresh
      · rfl
  · rcases drawn_op hx h with h | ⟨-, hn, -, hin⟩
    · exact ⟨(hI.drawn t' noise h).1, hissued _ (hI.drawn t' noise h).2⟩
    · exact ⟨hn, hin⟩
  · rcases h.op hx with h | h
    · exact (hI.found t' rt h).cons _
    · exact (hI.rows rt h).cons _
  · rcases rows_sem hx hG with hsame | ⟨ss, db, rfl, hwrite, hdb, rfl⟩
    · rw [hsame] at hr
      exact (hI.rows r hr).cons _
    · rcases hwrite.rows hdb r hr with ⟨r₁, hr₁, hid, huid, -⟩ | rfl
      · rw [← hid, ← huid]
        exact (hI.rows r₁ hr₁).cons _
      · exact .inr ⟨t, r, x, List.mem_cons_self, rfl, rfl⟩
  · rcases rows_sem hx hG with hsame | ⟨ss, db, -, hwrite, hdb, rfl⟩
    · rw [UniqueRows, hsame]
      exact hI.unique
    · exact hwrite.unique hdb hI.unique

/-- The row of this id has ended by `n`, and who has read that it ends later has read this before
it was invalidated. -/
structure GoneSince (w : World) (l : RefreshLog) (id : String) (n : Int) : Prop where
  rows : ∀ r ∈ w.db .refreshTokens, r.id = id → r.exp ≤ n
  found : ∀ t rt, FoundRow rt (seenBy t l) → rt.id = id → rt.exp ≤ n ∨ EndedSince t rt l

/-- **A row that is gone stays gone.** -/
theorem GoneSince.op {n : Int} (h : GoneSince w l id n) (hI : RowsInv data w₀ w l)
    (hd : SuffixesDistinct data) (hx : sem o w x w') (hG : RowStep data (seenBy t l) ⟨o, x⟩)
    (hC : RowsCurrent w l (.op t o x)) (hid : KnownRow w₀ l id uid) :
    GoneSince w' (.op t o x :: l) id n where
  rows r hr hrid := by
    rcases rows_sem hx hG with hsame | ⟨ss, db, rfl, hwrite, hdb, rfl⟩
    · rw [hsame] at hr
      exact h.rows r hr hrid
    rcases hwrite.rows hdb r hr with ⟨r₁, hr₁, hid₁, -, hexp⟩ | rfl
    · exact Int.le_trans hexp (h.rows r₁ hr₁ (hid₁.trans hrid))
    cases hwrite with
    | rotates hrt hn =>
        rcases h.found t _ hrt hrid with hle | hended
        · exact Int.le_trans hn hle
        · exact absurd hended (hC t _ x rfl _ hrt rfl)
    | creates hdrawn hstored =>
        rw [hrid] at hstored
        exact absurd hid (hI.fresh hd hdrawn hstored)
  found t' rt hfound hrid := by
    rcases hfound.op hx with hfound | hrt
    · exact (h.found t' rt hfound hrid).imp_right fun h => h.cons _
    · exact .inl (h.rows rt hrt hrid)

/-- A request that starts or ends has seen what it had seen. -/
theorem RowsInv.aside (hI : RowsInv data w₀ w l) {e : RefreshEvent}
    (he : ∀ t, seenBy t (e :: l) = seenBy t l) (hne : ∀ t o x, e ≠ .op t o x) :
    RowsInv data w₀ w (e :: l) := by
  have hknown : ∀ {id uid}, KnownRow w₀ (e :: l) id uid → KnownRow w₀ l id uid := by
    rintro id uid (h | ⟨t, r, x, hmem, hid⟩)
    · exact .inl h
    · rcases List.mem_cons.mp hmem with h | hmem
      · exact absurd h.symm (hne _ _ _)
      · exact .inr ⟨t, r, x, hmem, hid⟩
  refine ⟨fun id uid hid => ?_, fun id uid uid' hid hid' => ?_, fun t₁ t₂ noise h₁ h₂ => ?_,
    fun t noise h => ?_, fun t rt h => ?_, fun r hr => (hI.rows r hr).cons e, hI.unique⟩
  · obtain ⟨noise, token, hn, hin, hby, hno⟩ := hI.known id uid (hknown hid)
    refine ⟨noise, token, hn, hin, hby, fun t h => hno t ?_⟩
    rwa [he] at h
  · exact hI.owner id uid uid' (hknown hid) (hknown hid')
  · rw [he] at h₁ h₂
    exact hI.single t₁ t₂ noise h₁ h₂
  · rw [he] at h
    exact hI.drawn t noise h
  · rw [he] at h
    exact (hI.found t rt h).cons e

theorem RowsInv.start (hI : RowsInv data w₀ w l) (q : RefreshReq) :
    RowsInv data w₀ w (.start t q :: l) :=
  hI.aside (fun _ => seenBy_start) fun _ _ _ he => by cases he

theorem RowsInv.done (hI : RowsInv data w₀ w l) (r : RefreshOutcome) :
    RowsInv data w₀ w (.done t r :: l) :=
  hI.aside (fun _ => seenBy_done) fun _ _ _ he => by cases he

theorem GoneSince.aside {n : Int} (h : GoneSince w l id n) {e : RefreshEvent}
    (he : ∀ t, seenBy t (e :: l) = seenBy t l) : GoneSince w (e :: l) id n where
  rows := h.rows
  found t rt hfound hrid := by
    rw [he] at hfound
    exact (h.found t rt hfound hrid).imp_right fun h => h.cons e

end Inv

/-! ### Runs -/

section Runs

variable {data : AppState} {w₀ : World} {P P' : RefreshPool}
  {n : Int}

theorem rowsInv_of_run (hd : SuffixesDistinct data) (hw : RowsSigned data w₀)
    (h : Run (RefreshReq.prog data) sem RowsCurrent (init w₀) P) :
    RowsInv data w₀ P.world P.log ∧
      Promised (fun _ => Op.Possible) (fun _ => RowStep data) (fun _ _ _ => True) P :=
  Run.inv_of_seen (I := RowsInv data w₀)
    (fun q => Prog.wp_mono (sees_refreshReq q) fun _ _ _ => trivial)
    (fun w _ _ _ _ _ w' _ _ hx _ => ⟨w, w', hx⟩) (.init hw)
    (fun _ _ _ q hI _ _ => hI.start q)
    (fun _ _ _ _ _ _ _ hI _ _ hx _ hG => hI.op hd hx hG)
    (fun _ _ _ _ r hI _ _ _ _ => hI.done r) h

/-- From any state of a run on, a row that is gone stays gone. -/
theorem goneSince_of_run (hd : SuffixesDistinct data) (hw : RowsSigned data w₀)
    (h : Run (RefreshReq.prog data) sem RowsCurrent (init w₀) P)
    (h' : Run (RefreshReq.prog data) sem RowsCurrent P P') {id uid : String}
    (hid : KnownRow w₀ P.log id uid) (hgone : GoneSince P.world P.log id n) :
    GoneSince P'.world P'.log id n := by
  obtain ⟨hI, hT⟩ := rowsInv_of_run hd hw h
  have hinit : RowsInv data w₀ P.world P.log ∧ KnownRow w₀ P.log id uid ∧
      GoneSince P.world P.log id n := ⟨hI, hid, hgone⟩
  exact (Run.inv_of_seen_from
    (I := fun w l => RowsInv data w₀ w l ∧ KnownRow w₀ l id uid ∧ GoneSince w l id n)
    (fun q => Prog.wp_mono (sees_refreshReq q) fun _ _ _ => trivial)
    (fun w _ _ _ _ _ w' _ _ hx _ => ⟨w, w', hx⟩)
    (fun _ _ _ q hI _ _ => ⟨hI.1.start q, hI.2.1.cons _, hI.2.2.aside fun _ => seenBy_start⟩)
    (fun _ _ _ _ _ _ _ hI _ _ hx hC hG => ⟨hI.1.op hd hx hG, hI.2.1.cons _,
      hI.2.2.op hI.1 hd hx hG hC hI.2.1⟩)
    (fun _ _ _ _ r hI _ _ _ _ => ⟨hI.1.done r, hI.2.1.cons _, hI.2.2.aside fun _ => seenBy_done⟩)
    (h.consistent (.init w₀)) hinit hT h').1.2.2

/-- A token with this row can be used. -/
def RedeemableRow (w : World) (id : String) : Prop :=
  ∃ r ∈ w.db .refreshTokens, r.id = id ∧ w.clock / 1000 ≤ r.exp

instance (w : World) (id : String) : Decidable (RedeemableRow w id) :=
  inferInstanceAs (Decidable (∃ r ∈ w.db .refreshTokens, r.id = id ∧ w.clock / 1000 ≤ r.exp))

theorem Invalidates.rows {r : RefreshToken} {e : RefreshEvent} (he : Invalidates r.userId n e)
    (hr : r ∈ P.world.db .refreshTokens) (hu : UniqueRows P.world)
    (hs : Step (RefreshReq.prog data) sem P e P') :
    ∀ r' ∈ P'.world.db .refreshTokens, r'.id = r.id → r'.exp ≤ n := by
  -- a row of this id is the row itself, and it is selected if it ends later
  have hends : ∀ {p : RefreshToken → Bool} {db : Db}, (n < r.exp → p r = true) →
      applyAll [.update .refreshTokens p fun r => { r with exp := n }] P.world.db = some db →
      ∀ r' ∈ db .refreshTokens, r'.id = r.id → r'.exp ≤ n := by
    intro p db hsel hdb r' hr' hid
    cases apply_of_applyAll hdb
    simp only [Function.update_self, List.mem_map] at hr'
    obtain ⟨r₁, hr₁, rfl⟩ := hr'
    have hsame : r₁.id = r.id := by
      split at hid
      · exact hid
      · exact hid
    obtain rfl := hu r₁ hr₁ r hr hsame
    split
    · exact Int.le_refl n
    · next hno => exact Int.not_lt.mp fun hlt => hno (hsel hlt)
  have hwritten : ∀ {ss : List DbWrite} {w : World}, sem (.execute ss) P.world (.ok ()) w →
      ∃ db, applyAll ss P.world.db = some db ∧ w = { P.world with db } := by
    intro ss w hx
    obtain ⟨db, hdb, rfl⟩ := sem_execute_ok.mp hx
    exact ⟨db, hdb.applied, rfl⟩
  cases he with
  | all =>
      cases hs with
      | op ht hx =>
          obtain ⟨db, hdb, rfl⟩ := hwritten hx
          exact hends (fun hlt => decide_eq_true hlt) hdb
  | forUser =>
      cases hs with
      | op ht hx =>
          obtain ⟨db, hdb, rfl⟩ := hwritten hx
          refine hends (fun hlt => ?_) hdb
          exact Bool.and_eq_true_iff.mpr ⟨decide_eq_true hlt, beq_iff_eq.mpr rfl⟩
  | allForUser =>
      cases hs with
      | op ht hx =>
          obtain ⟨db, hdb, rfl⟩ := hwritten hx
          intro r' hr' hid
          cases apply_of_applyAll hdb
          simp only [opThread, Function.update_self, List.mem_filter, Bool.not_eq_true',
            beq_eq_false_iff_ne] at hr'
          obtain rfl := hu r' hr'.1 r hr hid
          exact absurd rfl hr'.2

theorem Invalidates.exists_execute {uid : String} {e : RefreshEvent} (he : Invalidates uid n e) :
    ∃ t s, e = .op t (.execute [s]) (.ok ()) ∧
      ∀ r, s ≠ .upsert .refreshTokens r := by
  cases he with
  | all => exact ⟨_, _, rfl, fun _ h => by cases h⟩
  | forUser => exact ⟨_, _, rfl, fun _ h => by cases h⟩
  | allForUser => exact ⟨_, _, rfl, fun _ h => by cases h⟩

/-- **An invalidated token stays invalid.**  In every interleaving of refreshes, issued tokens,
invalidations and cleanups in which no row is written back that has been invalidated since it was
read, a row that an invalidation ends at `n`, or deletes, is not redeemable any more once the clock
is past `n`. -/
theorem invalidated_for_good (hd : SuffixesDistinct data) (hw : RowsSigned data w₀)
    {P P₁ P₂ : RefreshPool} (h : Run (RefreshReq.prog data) sem RowsCurrent (init w₀) P)
    {r : RefreshToken} (hr : r ∈ P.world.db .refreshTokens) {e : RefreshEvent} {n : Int}
    (he : Invalidates r.userId n e) (hs : Step (RefreshReq.prog data) sem P e P₁)
    (h₁ : Run (RefreshReq.prog data) sem RowsCurrent P₁ P₂) (hn : n < P₂.world.clock / 1000) :
    ¬ RedeemableRow P₂.world r.id := by
  obtain ⟨hI, -⟩ := rowsInv_of_run hd hw h
  obtain ⟨t, s, rfl, hne⟩ := he.exists_execute
  have hlog : P₁.log = .op t (.execute [s]) (.ok ()) :: P.log := by
    cases hs with
    | op ht hx => rfl
  have hC : RowsCurrent P.world P.log (.op t (.execute [s]) (.ok ())) := by
    intro t' r' x hup
    cases hup
    exact absurd rfl (hne r')
  have hgone : GoneSince P₁.world P₁.log r.id n := by
    refine ⟨he.rows hr hI.unique hs, fun t' rt hfound hid => .inr ?_⟩
    -- it was read before
    have hbefore : FoundRow rt (seenBy t' P.log) := by
      rw [hlog] at hfound
      by_cases htt : t' = t
      · subst htt
        rw [seenBy_op_self] at hfound
        obtain ⟨p, rest, hmem⟩ := hfound
        rcases List.mem_cons.mp hmem with heq | hmem
        · cases heq
        · exact ⟨p, rest, hmem⟩
      · rwa [seenBy_op_of_ne htt] at hfound
    have howner : rt.userId = r.userId := by
      have hrt := hI.found t' rt hbefore
      rw [hid] at hrt
      exact hI.owner _ _ _ hrt (hI.rows r hr)
    rw [hlog]
    exact ⟨[], _, P.log, n, rfl, hbefore, howner ▸ he⟩
  have hknown : KnownRow w₀ P₁.log r.id r.userId := by
    rw [hlog]
    exact (hI.rows r hr).cons _
  have hgone₂ := goneSince_of_run hd hw (h.step hs hC) h₁ hknown hgone
  rintro ⟨r', hr', hid, halive⟩
  have hle := hgone₂.rows r' hr' hid
  omega

end Runs

/-! ### An invalidation during a refresh -/

/-- A test for a schedule that writes nothing. -/
def writesNothing : RefreshEvent → Bool
  | .op _ (.execute _) _ => false
  | _ => true

theorem rowsCurrent_of_test {w : World} {l : RefreshLog} {e : RefreshEvent}
    (h : writesNothing e = true) : RowsCurrent w l e := by
  rintro t r x rfl
  cases h

section Ended

variable {data : AppState} {P₀ P : RefreshPool} {t : ℕ} {n : Int}
  {C : World → RefreshLog → RefreshEvent → Prop}

/-- The statement that invalidates all tokens in the second `n`. -/
def endAll (n : Int) : List DbWrite :=
  [.update .refreshTokens (fun r => decide (r.exp > n)) fun r => { r with exp := n }]

/-- Request `t` invalidates all tokens, and has read the second `n` from the clock. -/
def endingAt (data : AppState) (P : RefreshPool) (t : ℕ) (n : Int) : RefreshPool :=
  (P.startThread (RefreshReq.prog data) t .invalidateAll).opThread t .now (n * 1000)
    { P.world with clock := n * 1000 } (do
      execute (endAll n)
      return .done)

/-- The rows of all tokens end in the second `n`. -/
def endedWorld (w : World) (n : Int) : World :=
  { w with
    clock := n * 1000
    db := Function.update w.db .refreshTokens ((w.db .refreshTokens).map fun r =>
      if decide (r.exp > n) then { r with exp := n } else r) }

/-- Request `t` has invalidated all tokens in the second `n`. -/
def endedAt (data : AppState) (P : RefreshPool) (t : ℕ) (n : Int) : RefreshPool :=
  (endingAt data P t n).opThread t (.execute (endAll n)) (.ok ()) (endedWorld P.world n)
    (.ret .done)

theorem run_endingAt (h : Run (RefreshReq.prog data) sem C P₀ P) (ht : Log.Fresh t P.log)
    (hn : P.world.clock ≤ n * 1000) (hC : ∀ w l e, writesNothing e = true → C w l e) :
    Run (RefreshReq.prog data) sem C P₀ (endingAt data P t n) := by
  have hstart : Run (RefreshReq.prog data) sem C P₀
      (P.startThread (RefreshReq.prog data) t .invalidateAll) :=
    h.step (.start _ ht) (hC _ _ _ rfl)
  have hthread : (P.startThread (RefreshReq.prog data) t .invalidateAll).threads t =
      some (.call .now fun ms => do
        execute (endAll (ms / 1000))
        return .done) := by
    show Function.update P.threads t _ t = _
    rw [Function.update_self]
    rfl
  have hsem : sem .now P.world (n * 1000) { P.world with clock := n * 1000 } :=
    sem_now.mpr ⟨hn, rfl⟩
  have hstep : Step (RefreshReq.prog data) sem _ (.op t .now (n * 1000)) _ := .op hthread hsem
  have hsec : n * 1000 / 1000 = n := Int.mul_ediv_cancel n (by decide)
  simp only [hsec] at hstep
  exact hstart.step hstep (hC _ _ _ rfl)

theorem step_endedAt : Step (RefreshReq.prog data) sem (endingAt data P t n)
    (.op t (.execute (endAll n)) (.ok ())) (endedAt data P t n) := by
  have hthread : (endingAt data P t n).threads t = some (.call (.execute (endAll n)) fun x =>
      (answer x >>= fun _ => (.ret .done : M ErrorResponse RefreshReply))) := by
    show Function.update _ t _ t = _
    rw [Function.update_self]
    rfl
  have hsem : sem (.execute (endAll n)) (endingAt data P t n).world (.ok ())
      (endedWorld P.world n) :=
    sem_execute_ok.mpr ⟨_, .of_emails rfl rfl, rfl⟩
  exact Step.op hthread hsem

end Ended

/-- Alice's tokens are invalidated in the second 100, and a cleanup starts in the second 101. -/
theorem invalidated_for_good_alice :
    ∃ P P₁ P₂ : RefreshPool, ∃ e,
      Run (RefreshReq.prog refreshState) sem RowsCurrent (init refreshWorld) P ∧
      firstRow ∈ P.world.db .refreshTokens ∧ Invalidates firstRow.userId 100 e ∧
      Step (RefreshReq.prog refreshState) sem P e P₁ ∧
      Run (RefreshReq.prog refreshState) sem RowsCurrent P₁ P₂ ∧
      100 < P₂.world.clock / 1000 ∧ ¬ RedeemableRow P₂.world firstRow.id := by
  have hrun : Run (RefreshReq.prog refreshState) sem RowsCurrent (init refreshWorld)
      (endingAt refreshState (init refreshWorld) 0 100) :=
    run_endingAt .refl (by decide) (by decide) fun _ _ _ h => rowsCurrent_of_test h
  have hmoves : (((endedAt refreshState (init refreshWorld) 0 100).moves
      (RefreshReq.prog refreshState) Op.run (fun _ _ e => writesNothing e)
      [.start 1 .cleanup, .op 1 (.time 101000)]).any fun P => decide (100 < P.world.clock / 1000)) =
        true := by
    decide +kernel
  obtain ⟨P₂, hP₂, hclock⟩ := (Option.any_eq_true _ _).mp hmoves
  have hrun₂ := run_of_moves (C := RowsCurrent) hP₂ (fun _ _ _ h => rowsCurrent_of_test h) .refl
  have hrow : firstRow ∈ refreshWorld.db .refreshTokens := List.mem_singleton_self _
  exact ⟨_, _, P₂, _, hrun, hrow, .all, step_endedAt, hrun₂, of_decide_eq_true hclock,
    invalidated_for_good suffixesDistinct_refreshState rowsSigned_refreshWorld hrun hrow .all
      step_endedAt hrun₂ (of_decide_eq_true hclock)⟩

/-- The row is found in the second 100, all tokens are invalidated, and the row is written back: it
lives on in the second 101. -/
theorem not_invalidated_in_flight :
    ¬ ∀ (data : AppState) (w₀ : World), SuffixesDistinct data → RowsSigned data w₀ →
      ∀ P P₁ P₂ : RefreshPool,
        Run (RefreshReq.prog data) sem (fun _ _ _ => True) (init w₀) P →
        ∀ r ∈ P.world.db .refreshTokens, ∀ n e, Invalidates r.userId n e →
          Step (RefreshReq.prog data) sem P e P₁ →
          Run (RefreshReq.prog data) sem (fun _ _ _ => True) P₁ P₂ →
          n < P₂.world.clock / 1000 → ¬ RedeemableRow P₂.world r.id := by
  intro h
  have hmoves : (((init refreshWorld).moves (RefreshReq.prog refreshState) Op.run
      (fun _ _ _ => true) (lookMoves 0 firstNoise 100000)).any fun P =>
        decide (Log.Fresh 1 P.log) && (decide (P.world.clock ≤ 100 * 1000) &&
        (decide (firstRow ∈ P.world.db .refreshTokens) &&
        ((endedAt refreshState P 1 100).moves (RefreshReq.prog refreshState) Op.run
          (fun _ _ _ => true) (userMoves 0 100000 ++ [.op 0 .ok, .op 0 (.time 101000)])).any
          fun P₂ => decide (100 < P₂.world.clock / 1000) &&
            decide (RedeemableRow P₂.world firstRow.id)))) = true := by
    decide +kernel
  obtain ⟨P, hP, hcheck⟩ := (Option.any_eq_true _ _).mp hmoves
  simp only [Bool.and_eq_true, decide_eq_true_eq, Option.any_eq_true] at hcheck
  obtain ⟨hf, hn, hrow, P₂, hP₂, hclock, halive⟩ := hcheck
  have hrun := run_of_moves hP (C := fun _ _ _ => True) (fun _ _ _ _ => trivial) .refl
  have hrun₂ := run_of_moves hP₂ (C := fun _ _ _ => True) (fun _ _ _ _ => trivial) .refl
  exact h refreshState refreshWorld suffixesDistinct_refreshState rowsSigned_refreshWorld _ _ _
    (run_endingAt hrun hf hn fun _ _ _ _ => trivial) firstRow hrow 100 _ .all step_endedAt hrun₂
    hclock halive

end Rauthy
