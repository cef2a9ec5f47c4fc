/-
Rauthy/SessionStore.lean

The session store as a system: any sequence of `Session::save`, `find`,
`invalidate` and `delete`, with cache hits, misses and failures.

A session that `invalidate` revoked in the second `T` should never be found valid
in a later second.  That needs every copy of it to be capped at `T`: the row, which
`invalidate` updates, and the cache entry, which it leaves alone because it removes
the key from another cache.

Main results:
  * `find_not_valid_of_invalidate`: with no live cache entry when `invalidate` runs
    and no later write beyond `T`, the session is never found valid again;
  * `invalidated_session_found_valid`: without, it is.
-/
import Rauthy.Sessions

namespace Rauthy

open Prog Pool

variable {l : StoreLog}
  {r : Except (Fault ErrorResponse) StoreAns}

inductive StoreReq where
  | save (s : Session)
  | find (id : String)
  | invalidate (s : Session)
  | delete (s : Session)
  deriving DecidableEq

inductive StoreAns where
  | unit
  | session (s : Session)
  | invalidated (s : Session) (cookie : Cookie)
  deriving DecidableEq

namespace StoreReq

def prog : StoreReq → M ErrorResponse StoreAns
  | save s => do s.save; return .unit
  | find id => do return .session (← Session.find id)
  | invalidate s => do
      let (s, cookie) ← s.invalidate
      return .invalidated s cookie
  | delete s => do s.delete; return .unit

end StoreReq

abbrev StoreEvent := Event StoreReq Op Op.Res (Except (Fault ErrorResponse) StoreAns)

abbrev StoreLog := Log StoreReq Op Op.Res (Except (Fault ErrorResponse) StoreAns)

/-! ### What is promised -/

/-- `Session::invalidate` of the session `id` has returned `Ok`, in the second `T`. -/
def Revoked (id : String) (T : Int) (l : StoreLog) : Prop :=
  ∃ t s s' cookie, .start t (.invalidate s) ∈ l ∧
    .done t (.ok (.invalidated s' cookie)) ∈ l ∧ s.id = id ∧ s'.exp = T

theorem Revoked.cons {id : String} {T : Int} (h : Revoked id T l) (e : StoreEvent) :
    Revoked id T (e :: l) := by
  obtain ⟨t, s, s', cookie, h₁, h₂, h₃⟩ := h
  exact ⟨t, s, s', cookie, List.mem_cons_of_mem _ h₁, List.mem_cons_of_mem _ h₂, h₃⟩

/-- A later `Session::find` does not yield a session that is valid in a later second. -/
def NotFoundValid (e : StoreEvent) (l : StoreLog) : Prop :=
  ∀ t id s, e = .done t (.ok (.session s)) → .start t (.find id) ∈ l →
    ∀ T, Revoked id T l → ∀ now timeout ip, T < now → s.isValidAt now timeout ip = false

/-- No write after the revocation reaches beyond its second, and `invalidate` finds
no live entry in the cache. -/
structure StoreCond (w : World) (l : StoreLog) (e : StoreEvent) : Prop where
  oneByOne : OneByOne w l e
  save : ∀ t s, e = .start t (.save s) → ∀ T, Revoked s.id T l → s.exp ≤ T
  invalidate : ∀ t s (ms : Int), e = .op t .now ms → .start t (.invalidate s) ∈ l →
    (∀ T, Revoked s.id T l → ms / 1000 ≤ T) ∧
    ∀ s', w.cache .sessions (Session.cacheIdx s.id) = some (.session s') → s'.exp ≤ ms / 1000

/-! ### Every copy of a session is capped -/

/-- No copy of the session `id`, in the database or in the cache, lives beyond `T`. -/
structure Capped (id : String) (T : Int) (w : World) : Prop where
  row : ∀ r ∈ w.db .sessions, r.id = id → r.exp ≤ T
  entry : ∀ s, w.cache .sessions (Session.cacheIdx id) = some (.session s) → s.exp ≤ T

namespace Capped

variable {id : String} {T : Int} {w w' : World}
  {k : String} {x : Except ErrorResponse Unit}

theorem put {s : Session} (h : Capped id T w) (hs : k = Session.cacheIdx id → s.exp ≤ T) :
    Capped id T (w.put .sessions k (.session s)) where
  row := h.row
  entry s' hs' := by
    rw [World.put_cache] at hs'
    split at hs'
    · next hk =>
        cases hs'
        exact hs hk.2.symm
    · exact h.entry s' hs'

theorem del {c : CacheName} (h : Capped id T w) : Capped id T (w.del c k) where
  row := h.row
  entry s' hs' := by
    rw [World.del_cache] at hs'
    split at hs'
    · cases hs'
    · exact h.entry s' hs'

theorem of_db (h : Capped id T w) {db : Db} (hdb : ∀ r ∈ db .sessions, r.id = id → r.exp ≤ T) :
    Capped id T { w with db } := ⟨hdb, h.entry⟩

theorem clock (h : Capped id T w) (ms : Int) : Capped id T { w with clock := ms } := ⟨h.row, h.entry⟩

/-- A statement of the store keeps the cap, whether it is reported as failed or not. -/
theorem execute {s : DbWrite} (h : Capped id T w)
    (hs : ∀ db, s.apply w.db = some db → ∀ r ∈ db .sessions, r.id = id → r.exp ≤ T)
    (hx : sem (.execute [s]) w x w') : Capped id T w' := by
  rcases sem_execute.mp hx with ⟨-, -, rfl⟩ | ⟨db, ⟨hdb, -⟩, rfl⟩
  · exact h
  · refine h.of_db (hs db ?_)
    simpa [applyAll] using hdb

theorem cachePut {s : Session} (h : Capped id T w) (hs : k = Session.cacheIdx id → s.exp ≤ T)
    (hx : sem (.cachePut .sessions k (.session s)) w x w') : Capped id T w' := by
  rcases sem_cachePut.mp hx with ⟨-, rfl⟩ | ⟨-, -, rfl | rfl⟩
  · exact h.put hs
  · exact h
  · exact h.put hs

theorem cacheDel {c : CacheName} (h : Capped id T w) (hx : sem (.cacheDel c k) w x w') :
    Capped id T w' := by
  rcases sem_cacheDel.mp hx with ⟨-, rfl⟩ | ⟨-, -, rfl | rfl⟩
  · exact h.del
  · exact h
  · exact h.del

end Capped

/-! ### The statements of the session table -/

section Rows

variable {db db' : Db} {id : String} {T : Int}

theorem exp_le_of_upsert {s : Session} (h : (DbWrite.upsert .sessions s).apply db = some db')
    (hrow : ∀ r ∈ db .sessions, r.id = id → r.exp ≤ T) (hs : s.id = id → s.exp ≤ T) :
    ∀ r ∈ db' .sessions, r.id = id → r.exp ≤ T := by
  cases h
  intro r hr hid
  rw [Function.update_self] at hr
  rcases List.mem_append.mp hr with hr | hr
  · exact hrow r (List.mem_filter.mp hr).1 hid
  · rw [List.mem_singleton.mp hr] at hid ⊢
    exact hs hid

theorem exp_le_of_delete {p : Session → Bool}
    (h : (DbWrite.delete .sessions p).apply db = some db')
    (hrow : ∀ r ∈ db .sessions, r.id = id → r.exp ≤ T) :
    ∀ r ∈ db' .sessions, r.id = id → r.exp ≤ T := by
  cases h
  intro r hr hid
  rw [Function.update_self] at hr
  exact hrow r (List.mem_filter.mp hr).1 hid

/-- The update of `invalidate` sets the expiry of the rows of one session. -/
theorem exp_of_update {sid : String} {exp : Int}
    (h : (DbWrite.update .sessions (fun r => r.id == sid)
      fun r => { r with exp, state := .loggedOut }).apply db = some db') :
    ∀ r' ∈ db' .sessions, (r'.id = sid ∧ r'.exp = exp) ∨ (r'.id ≠ sid ∧ r' ∈ db .sessions) := by
  cases h
  intro r' hr'
  rw [Function.update_self] at hr'
  obtain ⟨r, hr, rfl⟩ := List.mem_map.mp hr'
  by_cases hid : r.id = sid
  · simp [hid]
  · simp [hid, hr]

end Rows

/-! ### Each request keeps the caps, and `invalidate` sets one -/

namespace Session

variable {w w' : World} {id : String} {T : Int}
  {s : Session}
  {r : Except (Fault ErrorResponse) Unit}

theorem save_capped (hx : Exec sem (save s) w r w')
    (hs : s.id = id → s.exp ≤ T) (h : Capped id T w) :
    Capped id T w' := by
  have hwithin : Within (fun o => o = .execute [.upsert .sessions s] ∨
      o = .cachePut .sessions (cacheIdx s.id) (.session s)) (save s) := by
    refine within_bind ⟨.inl rfl, fun x => ?_⟩ fun _ => ⟨.inr rfl, fun x => ?_⟩
    · cases x <;> trivial
    · cases x <;> trivial
  refine hx.inv hwithin ?_ h
  rintro o (rfl | rfl) w x w₁ h hx
  · exact h.execute (fun db hdb => exp_le_of_upsert hdb h.row hs) hx
  · exact h.cachePut (fun hk => hs (cacheIdx_inj.mp hk)) hx

theorem delete_capped (hx : Exec sem (delete s) w r w') (h : Capped id T w) : Capped id T w' := by
  have hwithin : Within (fun o => o = .execute [.delete .sessions fun r => r.id == s.id] ∨
      o = .cacheDel .sessions (cacheIdx s.id)) (delete s) := by
    refine within_bind ⟨.inl rfl, fun x => ?_⟩ fun _ => ⟨.inr rfl, fun x => ?_⟩
    · cases x <;> trivial
    · cases x <;> trivial
  refine hx.inv hwithin ?_ h
  rintro o (rfl | rfl) w x w₁ h hx
  · exact h.execute (fun db hdb => exp_le_of_delete hdb h.row) hx
  · exact h.cacheDel hx

/-- What `find` returns is a capped copy, and it caches nothing else. -/
theorem find_capped {sid : String} {r : Except (Fault ErrorResponse) Session}
    (hx : Exec sem (find sid) w r w') (h : Capped id T w) :
    Capped id T w' ∧ ∀ s, r = .ok s → sid = id → s.exp ≤ T := by
  have hdrop : ∀ {w₁ : World} {r : Except (Fault ErrorResponse) (Option Session)},
      Exec sem (cacheGet .sessions (cacheIdx sid) CacheVal.session?) w r w₁ →
      Capped id T w₁ := by
    intro w₁ r hget
    rcases exec_cacheGet_world hget with rfl | rfl
    · exact h
    · exact h.del
  rcases exec_bind.mp hx with ⟨e, rfl, hget⟩ | ⟨v, w₁, hget, hfound⟩
  · exact ⟨hdrop hget, fun s hs => by cases hs⟩
  have h₁ := hdrop hget
  rcases v with - | s
  · rcases exec_bind.mp hfound with ⟨e, rfl, hrow⟩ | ⟨row, w₂, hrow, hcached⟩
    · rw [exec_fetchOne_world hrow]
      exact ⟨h₁, fun s hs => by cases hs⟩
    · obtain ⟨hhead, rfl⟩ := exec_fetchOne.mp hrow
      have hmem := List.mem_filter.mp (List.mem_of_mem_head? hhead)
      have hid : row.id = sid := by simpa using hmem.2
      have hexp : sid = id → row.exp ≤ T := fun he => h₁.row row hmem.1 (hid.trans he)
      rcases exec_bind.mp hcached with ⟨e, rfl, x, w₃, hput, ha⟩ | ⟨u, w₃, hput, hret⟩
      · refine ⟨?_, fun s hs => by cases hs⟩
        have hw : w' = w₃ := by cases x <;> exact ha.2
        rw [hw]
        exact h₁.cachePut (fun hk => hexp (cacheIdx_inj.mp hk)) hput
      · obtain ⟨rfl, rfl⟩ := hret
        refine ⟨?_, fun s hs he => ?_⟩
        · rw [exec_cachePut.mp hput]
          exact h₁.put fun hk => hexp (cacheIdx_inj.mp hk)
        · cases hs
          exact hexp he
  · obtain ⟨rfl, rfl⟩ := hfound
    refine ⟨h₁, fun s' hs he => ?_⟩
    cases hs
    rcases exec_cacheGet.mp hget with ⟨hn, -⟩ | ⟨a, v, ha, hc, hv, rfl⟩
    · cases hn
    · cases ha
      rw [CacheVal.session?_eq_some.mp hv, he] at hc
      exact h.entry _ hc

theorem invalidateAt_capped {exp : Int} {r : Except (Fault ErrorResponse) (Session × Cookie)}
    (hx : Exec sem (invalidateAt s exp) w r w') (hs : s.id = id → exp ≤ T) (h : Capped id T w) :
    Capped id T w' := by
  have hwithin : Within (fun o => o = .execute [.update .sessions (fun r => r.id == s.id)
      fun r => { r with exp, state := .loggedOut }] ∨ o = .cacheDel .c12hr (cacheIdx s.id))
      (invalidateAt s exp) := by
    refine within_bind ⟨.inl rfl, fun x => ?_⟩ fun _ =>
      within_bind ⟨.inr rfl, fun x => ?_⟩ fun _ => trivial
    · cases x <;> trivial
    · cases x <;> trivial
  refine hx.inv hwithin ?_ h
  rintro o (rfl | rfl) w x w₁ h hx
  · refine h.execute (fun db hdb r' hr' hid => ?_) hx
    rcases exp_of_update hdb r' hr' with ⟨hsid, he⟩ | ⟨-, hr⟩
    · rw [he]; exact hs (hsid.symm.trans hid)
    · exact h.row r' hr hid
  · exact h.cacheDel hx

/-- When it returns, the session is capped, provided that no live entry is left in
the cache: `invalidate` does not remove it. -/
theorem invalidateAt_caps {exp : Int} {a : Session × Cookie}
    (hx : Exec sem (invalidateAt s exp) w (.ok a) w')
    (hentry : ∀ s', w.cache .sessions (cacheIdx s.id) = some (.session s') → s'.exp ≤ exp) :
    a.1.exp = exp ∧ Capped s.id exp w' := by
  obtain ⟨_, w₁, hupd, hrest⟩ := exec_bind_ok.mp hx
  obtain ⟨_, w₂, hdel, hret, rfl⟩ := exec_bind_ok.mp hrest
  cases hret
  obtain ⟨db, ⟨hdb, -⟩, rfl⟩ := exec_execute.mp hupd
  obtain rfl := exec_cacheDel.mp hdel
  refine ⟨rfl, Capped.del ⟨fun r' hr' hid => ?_, hentry⟩⟩
  rcases exp_of_update (by simpa [applyAll] using hdb) r' hr' with ⟨-, he⟩ | ⟨hne, -⟩
  · exact le_of_eq he
  · exact absurd hid hne

end Session

/-! ### Every run -/

/-- What has been revoked stays capped: the invariant between two requests. -/
def StoreInv (w : World) (l : StoreLog) : Prop := ∀ id T, Revoked id T l → Capped id T w

/-- The events of one request add a revocation only if it is an `invalidate` that
returns. -/
theorem revoked_of_done {t : ℕ} {q : StoreReq} {evs : StoreLog} (hevs : OpsOf t evs)
    (hf : Log.Fresh t l) {id : String} {T : Int}
    (h : Revoked id T (.done t r :: (evs ++ .start t q :: l))) :
    Revoked id T l ∨ ∃ s s' cookie, q = .invalidate s ∧ r = .ok (.invalidated s' cookie) ∧
      s.id = id ∧ s'.exp = T := by
  obtain ⟨t', s, s', cookie, hstart, hdone, hid, hT⟩ := h
  replace hstart := hevs.start_mem.mp ((List.mem_cons.mp hstart).resolve_left (by simp))
  by_cases htt : t' = t
  · subst htt
    refine .inr ⟨s, s', cookie, ((start_mem_fresh hf).mp hstart).symm, ?_, hid, hT⟩
    rcases List.mem_cons.mp hdone with he | he
    · cases he; rfl
    · rcases List.mem_cons.mp (hevs.done_mem.mp he) with he | he
      · cases he
      · exact absurd rfl (hf _ he)
  · refine .inl ⟨t', s, s', cookie, ?_, ?_, hid, hT⟩
    · exact (List.mem_cons.mp hstart).resolve_left fun he => by cases he; exact htt rfl
    · replace hdone := (List.mem_cons.mp hdone).resolve_left fun he => by cases he; exact htt rfl
      exact (List.mem_cons.mp (hevs.done_mem.mp hdone)).resolve_left (by simp)

theorem storeInv_request {w w' : World} {l' : StoreLog} {t : ℕ} {q : StoreReq} (hI : StoreInv w l)
    (hf : Log.Fresh t l) (hC : StoreCond w l (.start t q))
    (hx : q.prog.Exec (logged sem StoreCond t) (w, .start t q :: l) r (w', l')) :
    StoreInv w' (.done t r :: l') := by
  obtain ⟨hsem, evs, hevs, hl'⟩ := exec_logged hx
  simp only at hsem hl'
  subst hl'
  intro id T hrev
  cases q with
  | save s =>
      rcases revoked_of_done hevs hf hrev with hrev | ⟨s', s'', c, h, -⟩
      · have hexp := hC.save t s rfl T
        rcases exec_bind.mp hsem with ⟨e, -, h⟩ | ⟨u, w₁, h, -, rfl⟩
        · exact Session.save_capped h (fun hid => hexp (hid ▸ hrev)) (hI id T hrev)
        · exact Session.save_capped h (fun hid => hexp (hid ▸ hrev)) (hI id T hrev)
      · cases h
  | find sid =>
      rcases revoked_of_done hevs hf hrev with hrev | ⟨s', s'', c, h, -⟩
      · rcases exec_bind.mp hsem with ⟨e, -, h⟩ | ⟨s, w₁, h, -, rfl⟩
        · exact (Session.find_capped h (hI id T hrev)).1
        · exact (Session.find_capped h (hI id T hrev)).1
      · cases h
  | delete s =>
      rcases revoked_of_done hevs hf hrev with hrev | ⟨s', s'', c, h, -⟩
      · rcases exec_bind.mp hsem with ⟨e, -, h⟩ | ⟨u, w₁, h, -, rfl⟩
        · exact Session.delete_capped h (hI id T hrev)
        · exact Session.delete_capped h (hI id T hrev)
      · cases h
  | invalidate s =>
      -- the first operation reads the clock, and there the condition speaks
      obtain ⟨ms, ⟨w₁, l₁⟩, ⟨hnow, hCnow, -⟩, hrest⟩ := hx
      obtain ⟨-, hw₁⟩ := sem_now.mp hnow
      obtain ⟨hlate, hentry⟩ := hCnow.invalidate t s ms rfl (by simp)
      simp only at hw₁ hentry
      subst hw₁
      have hat := (exec_logged hrest).1
      have hold : ∀ {T}, Revoked s.id T l → ms / 1000 ≤ T := by
        exact fun hrev => hlate _ (hrev.cons _)
      rcases revoked_of_done hevs hf hrev with hrev | ⟨s₁, s₂, c, hq, hr, hid, hT⟩
      · have h₁ := (hI id T hrev).clock ms
        rcases exec_bind.mp hat with ⟨e, -, h⟩ | ⟨a, w₂, h, -, rfl⟩
        · exact Session.invalidateAt_capped h (fun he => hold (he ▸ hrev)) h₁
        · exact Session.invalidateAt_capped h (fun he => hold (he ▸ hrev)) h₁
      · cases hq
        subst hr hid hT
        obtain ⟨a, w₂, h, hret, rfl⟩ := exec_bind_ok.mp hat
        obtain ⟨hexp, hcap⟩ := Session.invalidateAt_caps h hentry
        cases hret
        rw [hexp]
        exact hcap

/-- **A revoked session is never found valid again**, in every sequence of requests
in which `invalidate` finds no live entry in the cache of the sessions, and nothing
is written beyond the second of the revocation later on. -/
theorem find_not_valid_of_invalidate {w₀ : World}
    {P : Pool StoreReq Op Op.Res World (Fault ErrorResponse) StoreAns}
    (h : Run StoreReq.prog sem StoreCond (init w₀) P) : Log.Always NotFoundValid P.log := by
  refine Run.sequential_always (I := StoreInv) ?_ (fun _ _ _ hC => hC.oneByOne) ?_ ?_ ?_ h
  · rintro id T ⟨t, s, s', c, hstart, -⟩
    simp at hstart
  · intro t q l t' id s he
    cases he
  · intro t o x l t' id s he
    cases he
  · intro w l t q r w' l' hI hf hC hx _
    refine ⟨storeInv_request hI hf hC hx, ?_⟩
    intro t' id s he hstart T hrev now timeout ip hlt
    cases he
    obtain ⟨hsem, evs, hevs, hl'⟩ := exec_logged hx
    simp only at hsem hl'
    subst hl'
    -- the request that ends is the `find`, and the revocation was there before it
    obtain rfl := (start_mem_fresh hf).mp (hevs.start_mem.mp hstart)
    have hrev' : Revoked id T l := by
      refine (revoked_of_done (r := .ok (.session s)) hevs hf (hrev.cons _)).resolve_right ?_
      rintro ⟨_, _, _, h, -⟩
      cases h
    obtain ⟨s', w₁, hfind, hret, -⟩ := exec_bind_ok.mp hsem
    cases hret
    have hexp := (Session.find_capped hfind (hI id T hrev')).2 s rfl rfl
    exact Session.isValidAt_eq_false_of_exp_lt (by omega) timeout ip

/-- A logged-in session in the second 100, with 900 seconds left to live. -/
def aliceSession : Session where
  id := "s"
  csrfToken := "t"
  userId := some "alice"
  roles := none
  groups := none
  isMfa := false
  state := .auth
  exp := 1000
  lastSeen := 100
  remoteIp := none

/-- The session is in the database only, or nowhere. -/
def storeWorld (rows : List Session) : World where
  clock := 100000
  issued := []
  db := fun
    | .sessions => rows
    | _ => []
  cache _ _ := none

/-- Before the first revocation, with none of the sessions to revoke in the cache and
nothing saved, the condition holds. -/
def coldStart (w : World) (l : StoreLog) (e : StoreEvent) : Bool :=
  match e with
  | .start t q => decide (OneByOne w l (.start t q)) && !(q matches .save _)
  | .op _ .now _ => l.all fun
      | .start _ (.invalidate s) => w.cache .sessions (Session.cacheIdx s.id) == none
      | .done _ _ => false
      | _ => true
  | _ => true

theorem storeCond_of_coldStart {w : World} {e : StoreEvent} (h : coldStart w l e = true) :
    StoreCond w l e where
  oneByOne := by
    cases e with
    | start t q =>
        simp only [coldStart, Bool.and_eq_true, decide_eq_true_eq] at h
        exact h.1
    | op t o x => simp [OneByOne]
    | done t a => simp [OneByOne]
  save t s he := by
    subst he
    simp [coldStart] at h
  invalidate t s ms he hstart := by
    subst he
    simp only [coldStart, List.all_eq_true] at h
    refine ⟨?_, ?_⟩
    · rintro T ⟨t', s₁, s₂, c, -, hdone, -⟩
      exact absurd (h _ hdone) (by simp)
    · intro s' hs'
      have hnone := h _ hstart
      simp [hs'] at hnone

theorem find_not_valid_of_invalidate_alice :
    ∃ P, Run StoreReq.prog sem StoreCond (init (storeWorld [aliceSession])) P ∧
      Log.startOf 0 P.log = some (.invalidate aliceSession) ∧
      Log.justDone P.log = some (1, .ok (.session { aliceSession with
        exp := 100, state := .loggedOut })) ∧
      Log.Always NotFoundValid P.log := by
  obtain ⟨P, hrun, hlog⟩ := exists_run_of_moves (C := StoreCond) StoreReq.prog Op.run coldStart
    (storeWorld [aliceSession])
    [.start 0 (.invalidate aliceSession), .op 0 (.time 100000), .op 0 .ok, .op 0 .ok, .done 0,
      .start 1 (.find "s"), .op 1 .ok, .op 1 .ok, .op 1 .ok, .done 1]
    (fun P => decide (Log.startOf 0 P.log = some (.invalidate aliceSession) ∧
      Log.justDone P.log = some (1, .ok (.session { aliceSession with
        exp := 100, state := .loggedOut }))))
    (by decide +kernel) (fun _ _ _ => storeCond_of_coldStart)
  have hlog := of_decide_eq_true hlog
  exact ⟨P, hrun, hlog.1, hlog.2, find_not_valid_of_invalidate hrun⟩

/-- The cache entry survives the logout: the session is saved, invalidated, and found
again as it was saved. -/
theorem invalidated_session_found_valid :
    ¬ ∀ (w₀ : World) (P : Pool StoreReq Op Op.Res World (Fault ErrorResponse) StoreAns),
      Run StoreReq.prog sem OneByOne (init w₀) P → Log.Always NotFoundValid P.log := by
  intro h
  obtain ⟨P, hrun, hlog⟩ := exists_run_of_moves (C := OneByOne) StoreReq.prog Op.run
    (fun w l e => decide (OneByOne w l e)) (storeWorld [])
    [.start 0 (.save aliceSession), .op 0 .ok, .op 0 .ok, .done 0,
      .start 1 (.invalidate aliceSession), .op 1 (.time 100000), .op 1 .ok, .op 1 .ok, .done 1,
      .start 2 (.find "s"), .op 2 .ok, .done 2]
    (fun P => decide (Log.justDone P.log = some (2, .ok (.session aliceSession)) ∧
      Log.startOf 2 P.log.tail = some (.find "s") ∧
      Log.startOf 1 P.log.tail = some (.invalidate aliceSession) ∧
      Log.doneOf 1 P.log.tail = some (.ok (.invalidated { aliceSession with
        exp := 100, state := .loggedOut } ⟨"rauthy-session", "s", true, true, "/auth", 0⟩))))
    (by decide +kernel) (fun _ _ _ => of_decide_eq_true)
  obtain ⟨hdone, hfind, hinv, hinvd⟩ := of_decide_eq_true hlog
  have halways := h _ P hrun
  rw [Log.eq_of_justDone hdone] at halways
  have hrev : Revoked "s" 100 P.log.tail :=
    ⟨1, _, _, _, Log.mem_of_startOf hinv, Log.mem_of_doneOf hinvd, rfl, rfl⟩
  have hvalid := halways.1 2 "s" _ rfl (Log.mem_of_startOf hfind) 100 hrev 101 3600 none (by decide)
  exact absurd hvalid (by decide)

end Rauthy
