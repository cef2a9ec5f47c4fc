/-
Rauthy/Monad.lean

The monad of the requests: programs over the operations of `Rauthy.World` that can
fail with an error answer or panic.  The functions here are the calls that the
source makes to the database, to the caches and to the clock, with the errors they
can raise.

`Touches ts cs p` bounds what `p` writes: it changes only the tables `ts` and caches
only the kinds `cs` of entries.
-/
import Rauthy.World

namespace Rauthy

/-- Requests that fail with an `ε` (or panic). -/
abbrev M (ε : Type) := Prog Op Op.Res (Fault ε)

open Prog

variable {ε α β : Type} {t : Table} {c : CacheName} {k : String} {v : CacheVal}
  {as : CacheVal → Option α} {wrap : α → CacheVal} {load : M ErrorResponse α}
  {ts : List Table} {cs : List (CacheName × Slot)} {o : Op} {w w' : World} {p : Prog Op Op.Res ε α}
  {x : o.Res}

/-- `Err(ErrorResponse::new(typ, msg))` -/
def err (typ : ErrorResponseType) (msg : String) : Fault ErrorResponse := .err ⟨typ, msg⟩

/-- The error a request is answered with; a panic has none. -/
def errorOf : Except (Fault ε) α → Option ε
  | .error (.err e) => some e
  | _ => none

/-- The `?` operator on the answer of an operation. -/
def answer : Except ErrorResponse α → M ErrorResponse α
  | .ok a => ret a
  | .error e => fail (.err e)

/-- `Option::unwrap`, `Option::expect` -/
def unwrap (msg : String) : Option α → M ε α
  | some a => ret a
  | none => fail (.panic msg)

/-- `ok_or_else` -/
def okOr (e : Fault ε) : Option α → M ε α
  | some a => ret a
  | none => fail e

/-- `map_err`: panics go through. -/
def mapErr {ε' : Type} (f : ε → ε') (p : M ε α) : M ε' α := Prog.mapErr (Fault.map f) p

/-- Run `p` and look at its error; a panic goes through. -/
def attempt {ε' : Type} (p : M ε α) : M ε' (Except ε α) := do
  match ← Prog.attempt p with
  | .ok a => return .ok a
  | .error (.err e) => return .error e
  | .error (.panic msg) => fail (.panic msg)

/-- `if let Err(err) = p { error!(..) }` -/
def ignoreErr (p : M ErrorResponse α) : M ErrorResponse Unit := do
  let _ : Except ErrorResponse α ← attempt p
  return ()

/-- The time in milliseconds. -/
def now : M ε Int := op Op.now

/-- `OffsetDateTime::now_utc().unix_timestamp()` -/
def unixTimestamp : M ε Int := do
  let ms ← now
  return ms / 1000

/-- `get_rand(n)` -/
def getRand (n : ℕ) : M ε String := op (Op.getRand n)

/-- `new_store_id()` -/
def newStoreId : M ε String := getRand 24

/-- `fetch_all` -/
def select (t : Table) (p : Row t → Bool) : M ErrorResponse (List (Row t)) :=
  call (.select t p) answer

/-- `fetch_one` -/
def fetchOne (t : Table) (p : Row t → Bool) : M ErrorResponse (Row t) := do
  let rows ← select t p
  okOr (err .notFound "not found") rows.head?

/-- `fetch_optional` -/
def fetchOptional (t : Table) (p : Row t → Bool) : M ErrorResponse (Option (Row t)) := do
  let rows ← select t p
  return rows.head?

/-- `execute` of one statement, or `commit` of several -/
def execute (ss : List DbWrite) : M ErrorResponse Unit := call (.execute ss) answer

/-- `cache_get!` at the type that `as` selects -/
def cacheGet (c : CacheName) (k : String) (as : CacheVal → Option α) :
    M ErrorResponse (Option α) := do
  match ← call (.cacheGet c k) answer with
  | none => return none
  | some v =>
      let a ← okOr (err .internal "Internal Cache error: Deserialization") (as v)
      return some a

/-- `cache_insert`, `cache_put` -/
def cachePut (c : CacheName) (k : String) (v : CacheVal) : M ErrorResponse Unit :=
  call (.cachePut c k v) answer

/-- `cache_remove`, `cache_del` -/
def cacheDel (c : CacheName) (k : String) : M ErrorResponse Unit :=
  call (.cacheDel c k) answer

/-- Read through a cache: `load` is called on a miss, and its result is cached. -/
def cached (c : CacheName) (k : String) (as : CacheVal → Option α) (wrap : α → CacheVal)
    (load : M ErrorResponse α) : M ErrorResponse α := do
  match ← cacheGet c k as with
  | some a => return a
  | none =>
      let a ← load
      cachePut c k (wrap a)
      return a

/-! ### Values that can fail -/

section Except

variable {ε' : Type} {x : Except ε α} {e : ε}

theorem bind_eq_ok {f : α → Except ε β} {b : β} :
    (x >>= f) = .ok b ↔ ∃ a, x = .ok a ∧ f a = .ok b := by
  cases x with
  | error e =>
    refine ⟨fun h => (by cases h), ?_⟩
    rintro ⟨a, h, -⟩
    cases h
  | ok a =>
    refine ⟨fun h => ⟨a, rfl, h⟩, ?_⟩
    rintro ⟨a', h, hf⟩
    cases h
    exact hf

theorem bind_eq_error {f : α → Except ε β} :
    (x >>= f) = .error e ↔ x = .error e ∨ ∃ a, x = .ok a ∧ f a = .error e := by
  cases x with
  | error e' =>
    refine ⟨fun h => .inl (by cases h; rfl), ?_⟩
    rintro (h | ⟨a, h, -⟩)
    · cases h; rfl
    · cases h
  | ok a =>
    refine ⟨fun h => .inr ⟨a, rfl, h⟩, ?_⟩
    rintro (h | ⟨a', h, hf⟩)
    · cases h
    · cases h; exact hf

@[simp] theorem mapError_eq_ok {f : ε → ε'} {a : α} : x.mapError f = .ok a ↔ x = .ok a := by
  cases x <;> simp [Except.mapError]

theorem mapError_eq_error {f : ε → ε'} {e : ε'} :
    x.mapError f = .error e ↔ ∃ e', x = .error e' ∧ f e' = e := by
  cases x <;> simp [Except.mapError]

end Except

/-! ### Successful runs of these calls -/

section Exec

variable {S : Type} {step : (o : Op) → S → o.Res → S → Prop} {s s' : S}
  {a : α} {x : Option α} {ε' : Type} {p : M ε α} {u : Unit}

@[simp] theorem exec_answer {x : Except ErrorResponse α} :
    Exec step (answer x) s (.ok a) s' ↔ x = .ok a ∧ s' = s := by
  cases x <;> simp [answer, eq_comm]

@[simp] theorem exec_unwrap {msg : String} :
    Exec step (unwrap msg x : M ε α) s (.ok a) s' ↔ x = some a ∧ s' = s := by
  cases x <;> simp [unwrap, eq_comm]

@[simp] theorem exec_okOr {e : Fault ε} :
    Exec step (okOr e x) s (.ok a) s' ↔ x = some a ∧ s' = s := by
  cases x <;> simp [okOr, eq_comm]

theorem exec_mapErr {f : ε → ε'} :
    Exec step (mapErr f p) s (.ok a) s' ↔ Exec step p s (.ok a) s' := exec_mapErr_ok

/-- The outcome of a program that is tried is a value or an error; a panic is none. -/
theorem exec_tried {x : Except ε α} :
    Exec step (attempt p : M ε' (Except ε α)) s (.ok x) s' ↔
      Exec step p s (x.mapError .err) s' := by
  simp only [attempt, exec_bind_ok, exec_attempt, Except.ok.injEq]
  constructor
  · rintro ⟨r, s₁, ⟨_, rfl, hp⟩, hr⟩
    rcases r with (e | msg) | a
    · obtain ⟨hx, rfl⟩ := hr
      cases hx
      exact hp
    · cases hr.1
    · obtain ⟨hx, rfl⟩ := hr
      cases hx
      exact hp
  · intro hp
    refine ⟨_, s', ⟨_, rfl, hp⟩, ?_⟩
    cases x <;> exact ⟨rfl, rfl⟩

theorem exec_tried_panic {e : Fault ε'}
    (h : Exec step (attempt p : M ε' (Except ε α)) s (.error e) s') :
    ∃ msg, e = .panic msg ∧ Exec step p s (.error (.panic msg)) s' := by
  rcases exec_bind.mp h with ⟨e', -, hp⟩ | ⟨r, s₁, hp, hr⟩
  · obtain ⟨_, hx, -⟩ := exec_attempt.mp hp
    cases hx
  · obtain ⟨_, hx, hp⟩ := exec_attempt.mp hp
    cases hx
    rcases r with (e' | msg) | a
    · cases hr.1
    · obtain ⟨he, rfl⟩ := hr
      cases he
      exact ⟨msg, rfl, hp⟩
    · cases hr.1

variable {w w' : World}

theorem exec_now {x : Int} :
    Exec sem (now : M ε Int) w (.ok x) w' ↔ w.clock ≤ x ∧ w' = { w with clock := x } := by
  simp [now, exec_op, sem_now]

theorem exec_unixTimestamp {x : Int} :
    Exec sem (unixTimestamp : M ε Int) w (.ok x) w' ↔
      ∃ ms, x = ms / 1000 ∧ w.clock ≤ ms ∧ w' = { w with clock := ms } := by
  simp only [unixTimestamp, exec_bind_ok, exec_now, pure_eq, exec_ret, Except.ok.injEq]
  constructor
  · rintro ⟨ms, w₁, ⟨h, rfl⟩, rfl, rfl⟩
    exact ⟨ms, rfl, h, rfl⟩
  · rintro ⟨ms, rfl, h, rfl⟩
    exact ⟨ms, _, ⟨h, rfl⟩, rfl, rfl⟩

theorem exec_select {p : Row t → Bool} {rows : List (Row t)} :
    Exec sem (select t p) w (.ok rows) w' ↔ rows = (w.db t).filter p ∧ w' = w := by
  simp only [select, exec_call, exec_answer, sem_select]
  constructor
  · rintro ⟨x, w₁, ⟨rfl, h⟩, rfl, rfl⟩
    simpa using h
  · rintro ⟨rfl, rfl⟩
    exact ⟨_, _, ⟨rfl, .inl rfl⟩, rfl, rfl⟩

theorem exec_fetchOne {p : Row t → Bool} {r : Row t} :
    Exec sem (fetchOne t p) w (.ok r) w' ↔ ((w.db t).filter p).head? = some r ∧ w' = w := by
  simp only [fetchOne, exec_bind_ok, exec_select, exec_okOr]
  constructor
  · rintro ⟨rows, w₁, ⟨rfl, rfl⟩, h, rfl⟩
    exact ⟨h, rfl⟩
  · rintro ⟨h, rfl⟩
    exact ⟨_, _, ⟨rfl, rfl⟩, h, rfl⟩

theorem exec_execute {ss : List DbWrite} :
    Exec sem (execute ss) w (.ok u) w' ↔
      ∃ db, Commits ss w.db db ∧ w' = { w with db } := by
  simp only [execute, exec_call, exec_answer]
  constructor
  · rintro ⟨x, w₁, hx, rfl, rfl⟩
    exact sem_execute_ok.mp hx
  · intro h
    exact ⟨_, _, sem_execute_ok.mpr h, rfl, rfl⟩

theorem exec_cachePut :
    Exec sem (cachePut c k v) w (.ok u) w' ↔ w' = w.put c k v := by
  simp only [cachePut, exec_call, exec_answer, sem_cachePut]
  constructor
  · rintro ⟨x, w₁, hx, rfl, rfl⟩
    simpa using hx
  · rintro rfl
    exact ⟨_, _, .inl ⟨rfl, rfl⟩, rfl, rfl⟩

theorem exec_cacheDel :
    Exec sem (cacheDel c k) w (.ok u) w' ↔ w' = w.del c k := by
  simp only [cacheDel, exec_call, exec_answer, sem_cacheDel]
  constructor
  · rintro ⟨x, w₁, hx, rfl, rfl⟩
    simpa using hx
  · rintro rfl
    exact ⟨_, _, .inl ⟨rfl, rfl⟩, rfl, rfl⟩

/-- A successful read finds nothing (then the entry may just have expired), or it
finds the entry at the requested type. -/
theorem exec_cacheGet :
    Exec sem (cacheGet c k as) w (.ok x) w' ↔
      (x = none ∧ (w' = w.del c k ∨ w.cache c k = none ∧ w' = w)) ∨
      ∃ a v, x = some a ∧ w.cache c k = some v ∧ as v = some a ∧ w' = w := by
  simp only [cacheGet, exec_bind_ok, exec_call, exec_answer, sem_cacheGet]
  constructor
  · rintro ⟨y, w₁, ⟨z, w₂, hz, rfl, rfl⟩, h⟩
    rcases hz with ⟨hz, rfl⟩ | ⟨hz, rfl⟩ | ⟨e, he, -⟩
    · cases hz
      rcases e : w₁.cache c k with - | v
      · rw [e] at h
        obtain ⟨hx, rfl⟩ := h
        cases hx
        exact .inl ⟨rfl, .inr ⟨rfl, rfl⟩⟩
      · rw [e] at h
        obtain ⟨a, w₃, ha, hx, rfl⟩ := exec_bind_ok.mp h
        obtain ⟨hv, rfl⟩ := exec_okOr.mp ha
        cases hx
        exact .inr ⟨a, v, rfl, rfl, hv, rfl⟩
    · cases hz
      obtain ⟨hx, rfl⟩ := h
      cases hx
      exact .inl ⟨rfl, .inl rfl⟩
    · cases he
  · rintro (⟨rfl, rfl | ⟨hn, rfl⟩⟩ | ⟨a, v, rfl, hv, ha, rfl⟩)
    · exact ⟨none, _, ⟨_, _, .inr (.inl ⟨rfl, rfl⟩), rfl, rfl⟩, rfl, rfl⟩
    · exact ⟨none, _, ⟨_, _, .inl ⟨rfl, rfl⟩, by rw [hn], rfl⟩, rfl, rfl⟩
    · refine ⟨some v, _, ⟨_, _, .inl ⟨rfl, rfl⟩, by rw [hv], rfl⟩, ?_⟩
      exact exec_bind_ok.mpr ⟨a, _, exec_okOr.mpr ⟨ha, rfl⟩, rfl, rfl⟩

/-- A read through a cache answers from the cache, or loads and caches. -/
theorem exec_cached (h : Exec sem (cached c k as wrap load) w (.ok a) w') :
    (∃ v, w.cache c k = some v ∧ as v = some a ∧ w' = w) ∨
    ∃ w₁ w₂, (w₁ = w ∨ w₁ = w.del c k) ∧ Exec sem load w₁ (.ok a) w₂ ∧
      w' = w₂.put c k (wrap a) := by
  obtain ⟨x, w₁, hget, hrest⟩ := exec_bind_ok.mp h
  rcases exec_cacheGet.mp hget with ⟨rfl, hw⟩ | ⟨b, v, rfl, hv, hb, rfl⟩
  · obtain ⟨b, w₂, hload, hput⟩ := exec_bind_ok.mp hrest
    obtain ⟨_, w₃, hput, hret, rfl⟩ := exec_bind_ok.mp hput
    cases hret
    refine .inr ⟨w₁, w₂, ?_, hload, exec_cachePut.mp hput⟩
    rcases hw with rfl | ⟨-, rfl⟩
    · exact .inr rfl
    · exact .inl rfl
  · obtain ⟨hret, rfl⟩ := hrest
    cases hret
    exact .inl ⟨v, hv, hb, rfl⟩

theorem exec_cached_hit (hv : w.cache c k = some v) (ha : as v = some a) :
    Exec sem (cached c k as wrap load) w (.ok a) w :=
  exec_bind_ok.mpr ⟨some a, w, exec_cacheGet.mpr (.inr ⟨a, v, rfl, hv, ha, rfl⟩), rfl, rfl⟩

theorem exec_cached_load (h : Exec sem load (w.del c k) (.ok a) w') :
    Exec sem (cached c k as wrap load) w (.ok a) (w'.put c k (wrap a)) := by
  refine exec_bind_ok.mpr ⟨none, w.del c k, exec_cacheGet.mpr (.inl ⟨rfl, .inl rfl⟩), ?_⟩
  refine exec_bind_ok.mpr ⟨a, w', h, ?_⟩
  exact exec_bind_ok.mpr ⟨(), w'.put c k (wrap a), exec_cachePut.mpr rfl, rfl, rfl⟩

/-- Whatever a read answers, it leaves the world as it is or drops the entry. -/
theorem exec_cacheGet_world {r : Except (Fault ErrorResponse) (Option α)}
    (h : Exec sem (cacheGet c k as) w r w') : w' = w ∨ w' = w.del c k := by
  have hget : ∀ {r : Except (Fault ErrorResponse) (Option CacheVal)} {w' : World},
      Exec sem (call (.cacheGet c k) answer : M ErrorResponse _) w r w' →
      w' = w ∨ w' = w.del c k := by
    rintro r w' ⟨x, w₁, hx, ha⟩
    have hw : w' = w₁ := by
      cases x <;> exact ha.2
    rw [hw]
    rcases sem_cacheGet.mp hx with ⟨-, rfl⟩ | ⟨-, rfl⟩ | ⟨-, -, rfl⟩
    · exact .inl rfl
    · exact .inr rfl
    · exact .inl rfl
  rcases exec_bind.mp h with ⟨e, -, he⟩ | ⟨v, w₁, hv, hk⟩
  · exact hget he
  · have hw : w' = w₁ := by
      rcases v with - | v
      · exact hk.2
      · simp only at hk
        rcases e : as v with - | a
        · rw [e] at hk; exact hk.2
        · rw [e] at hk; exact hk.2
    rw [hw]
    exact hget hv

theorem exec_select_world {p : Row t → Bool} {r : Except (Fault ErrorResponse) (List (Row t))}
    (h : Exec sem (select t p) w r w') :
    w' = w := by
  obtain ⟨x, w₁, hx, ha⟩ := h
  obtain ⟨rfl, -⟩ := sem_select.mp hx
  cases x <;> exact ha.2

theorem exec_fetchOne_world {p : Row t → Bool} {r : Except (Fault ErrorResponse) (Row t)}
    (h : Exec sem (fetchOne t p) w r w') :
    w' = w := by
  rcases exec_bind.mp h with ⟨e, -, he⟩ | ⟨rows, w₁, hr, hk⟩
  · exact exec_select_world he
  · rw [← exec_select_world hr]
    rcases e : rows.head? with - | a
    · rw [e] at hk; exact hk.2
    · rw [e] at hk; exact hk.2

end Exec

/-! ### Pre- and postconditions of these calls -/

section Hoare

variable {S : Type} {step : (o : Op) → S → o.Res → S → Prop} {I P : S → Prop} {Q : α → S → Prop}

theorem hoare_answer {x : Except ErrorResponse α} (h : ∀ a s, I s → P s → x = .ok a → Q a s) :
    Hoare step I P (answer x) Q := by
  cases x with
  | ok a => exact hoare_ret fun s hI hs => h a s hI hs rfl
  | error e => exact hoare_fail

theorem hoare_okOr {e : Fault ε} {x : Option α} (h : ∀ a s, I s → P s → x = some a → Q a s) :
    Hoare step I P (okOr e x) Q := by
  cases x with
  | some a => exact hoare_ret fun s hI hs => h a s hI hs rfl
  | none => exact hoare_fail

theorem hoare_tried {ε' : Type} {p : M ε α} (h : Hoare step I P p Q) :
    Hoare step I P (attempt p : M ε' (Except ε α)) fun r s => ∀ a, r = .ok a → Q a s := by
  refine hoare_bind (hoare_attempt h) fun r => ?_
  rcases r with (e | msg) | a
  · exact hoare_ret fun s _ _ a ha => by cases ha
  · exact hoare_fail
  · refine hoare_ret fun s _ hs b hb => ?_
    cases hb
    exact hs a rfl

variable {I P : World → Prop} {Q : α → World → Prop}

theorem hoare_select {p : Row t → Bool} {Q : List (Row t) → World → Prop}
    (h : ∀ w, I w → P w → Q ((w.db t).filter p) w) : Hoare sem I P (select t p) Q := by
  intro w r w' hI hP hx
  obtain rfl := exec_select_world hx
  refine ⟨hI, fun rows hr => ?_⟩
  rw [hr] at hx
  obtain ⟨rfl, -⟩ := exec_select.mp hx
  exact h _ hI hP

theorem hoare_fetchOne {p : Row t → Bool} {Q : Row t → World → Prop}
    (h : ∀ w r, I w → P w → r ∈ w.db t → p r = true → Q r w) :
    Hoare sem I P (fetchOne t p) Q := by
  intro w r w' hI hP hx
  obtain rfl := exec_fetchOne_world hx
  refine ⟨hI, fun row hr => ?_⟩
  rw [hr] at hx
  obtain ⟨hmem, hp⟩ := List.mem_filter.mp (List.mem_of_head? (exec_fetchOne.mp hx).1)
  exact h _ row hI hP hmem hp

theorem hoare_execute {l : List DbWrite} {Q : Unit → World → Prop}
    (h : ∀ w db, I w → P w → applyAll l w.db = some db →
      I { w with db } ∧ Q () { w with db }) : Hoare sem I P (execute l) Q := by
  rintro w r w' hI hP ⟨x, w₁, hx, ha⟩
  have hw : w' = w₁ := by
    cases x <;> exact ha.2
  subst hw
  rcases sem_execute.mp hx with ⟨e, rfl, rfl⟩ | ⟨db, hdb, rfl⟩
  · exact ⟨hI, fun a hr => by rw [ha.1] at hr; cases hr⟩
  · exact ⟨(h w db hI hP hdb.applied).1, fun _ _ => (h w db hI hP hdb.applied).2⟩

theorem hoare_cachePut {Q : Unit → World → Prop}
    (h : ∀ w, I w → P w → I (w.put c k v) ∧ Q () (w.put c k v)) :
    Hoare sem I P (cachePut c k v) Q := by
  rintro w r w' hI hP ⟨x, w₁, hx, ha⟩
  have hw : w' = w₁ := by
    cases x <;> exact ha.2
  subst hw
  rcases sem_cachePut.mp hx with ⟨rfl, rfl⟩ | ⟨e, rfl, rfl | rfl⟩
  · exact ⟨(h w hI hP).1, fun _ _ => (h w hI hP).2⟩
  · exact ⟨hI, fun a hr => by rw [ha.1] at hr; cases hr⟩
  · exact ⟨(h w hI hP).1, fun a hr => by rw [ha.1] at hr; cases hr⟩

theorem hoare_cacheGet {f : CacheVal → Option α} {Q : Option α → World → Prop}
    (hdel : ∀ w, I w → P w → I (w.del c k) ∧ Q none (w.del c k))
    (hnone : ∀ w, I w → P w → w.cache c k = none → Q none w)
    (hsome : ∀ w v a, I w → P w → w.cache c k = some v → f v = some a → Q (some a) w) :
    Hoare sem I P (cacheGet c k f) Q := by
  intro w r w' hI hP hx
  refine ⟨?_, fun x hr => ?_⟩
  · rcases exec_cacheGet_world hx with rfl | rfl
    · exact hI
    · exact (hdel w hI hP).1
  · rw [hr] at hx
    rcases exec_cacheGet.mp hx with ⟨rfl, rfl | ⟨hn, rfl⟩⟩ | ⟨a, v, rfl, hv, ha, rfl⟩
    · exact (hdel w hI hP).2
    · exact hnone _ hI hP hn
    · exact hsome _ v a hI hP hv ha

end Hoare

/-! ### Invariants of what these calls write -/

section Keeps

variable {S : Type} {step : (o : Op) → S → o.Res → S → Prop} {J : S → Prop} {F : α → Prop}

theorem keeps_answer {x : Except ErrorResponse α} (h : ∀ a, x = .ok a → F a) :
    Keeps step J (answer x) F := by
  cases x with
  | ok a => exact h a rfl
  | error e => trivial

theorem keeps_okOr {e : Fault ε} {x : Option α} (h : ∀ a, x = some a → F a) :
    Keeps step J (okOr e x) F := by
  cases x with
  | some a => exact h a rfl
  | none => trivial

theorem keeps_tried {ε' : Type} {p : M ε α} (h : Keeps step J p F) :
    Keeps step J (attempt p : M ε' (Except ε α)) fun r => ∀ a, r = .ok a → F a := by
  refine keeps_bind (keeps_attempt h) fun r hr => ?_
  rcases r with (e | msg) | a
  · exact keeps_ret fun a ha => by cases ha
  · exact keeps_fail
  · refine keeps_ret fun b hb => ?_
    cases hb
    exact hr a rfl

variable {J : World → Prop}

theorem keeps_select {p : Row t → Bool} {F : List (Row t) → Prop}
    (h : ∀ w, J w → F ((w.db t).filter p)) : Keeps sem J (select t p) F := by
  refine keeps_call fun w x w' hJ hx => ?_
  obtain ⟨rfl, rfl | ⟨e, rfl⟩⟩ := sem_select.mp hx
  · exact ⟨hJ, h _ hJ⟩
  · exact ⟨hJ, trivial⟩

theorem keeps_fetchOne {p : Row t → Bool} {F : Row t → Prop}
    (h : ∀ w r, J w → r ∈ w.db t → p r = true → F r) : Keeps sem J (fetchOne t p) F := by
  refine keeps_bind (F := fun rows => ∀ r ∈ rows, F r)
    (keeps_select fun w hJ r hr => ?_) fun rows hrows => keeps_okOr fun r hr => ?_
  · obtain ⟨hmem, hp⟩ := List.mem_filter.mp hr
    exact h w r hJ hmem hp
  · exact hrows r (List.mem_of_head? hr)

theorem keeps_execute {ss : List DbWrite}
    (h : ∀ w db, J w → Commits ss w.db db → J { w with db }) :
    Keeps sem J (execute ss) fun _ => True := by
  refine keeps_call fun w x w' hJ hx => ⟨?_, keeps_answer fun _ _ => trivial⟩
  rcases sem_execute.mp hx with ⟨e, rfl, rfl⟩ | ⟨db, hdb, rfl⟩
  · exact hJ
  · exact h w db hJ hdb

theorem keeps_cachePut (h : ∀ w, J w → J (w.put c k v)) :
    Keeps sem J (cachePut c k v) fun _ => True := by
  refine keeps_call fun w x w' hJ hx => ⟨?_, keeps_answer fun _ _ => trivial⟩
  rcases sem_cachePut.mp hx with ⟨rfl, rfl⟩ | ⟨e, rfl, rfl | rfl⟩
  · exact h w hJ
  · exact hJ
  · exact h w hJ

theorem keeps_cacheGet {F : Option α → Prop} (hdel : ∀ w, J w → J (w.del c k)) (hmiss : F none)
    (hhit : ∀ w v a, J w → w.cache c k = some v → as v = some a → F (some a)) :
    Keeps sem J (cacheGet c k as) F := by
  refine keeps_call fun w x w' hJ hx => ?_
  rcases sem_cacheGet.mp hx with ⟨rfl, rfl⟩ | ⟨rfl, rfl⟩ | ⟨e, rfl, rfl⟩
  · refine ⟨hJ, ?_⟩
    rcases hv : w'.cache c k with - | v
    · exact hmiss
    · show Keeps sem J (okOr _ (as v) >>= fun a => ret (some a)) F
      exact keeps_bind (keeps_okOr fun a ha => ha) fun a ha => hhit w' v a hJ hv ha
  · exact ⟨hdel w hJ, hmiss⟩
  · exact ⟨hJ, trivial⟩

theorem keeps_cached (hdel : ∀ w, J w → J (w.del c k))
    (hhit : ∀ w v a, J w → w.cache c k = some v → as v = some a → F a) (hload : Keeps sem J load F)
    (hput : ∀ w a, F a → J w → J (w.put c k (wrap a))) :
    Keeps sem J (cached c k as wrap load) F := by
  refine keeps_bind (F := fun x => ∀ a, x = some a → F a) (keeps_cacheGet hdel (by simp) ?_) ?_
  · intro w v a hJ hv ha b hb
    cases hb
    exact hhit w v a hJ hv ha
  · intro x hx
    cases x with
    | some a => exact hx a rfl
    | none =>
        refine keeps_bind hload fun a ha => ?_
        exact keeps_bind (keeps_cachePut fun w => hput w a ha) fun _ _ => ha

end Keeps

/-! ### Outcomes of these calls -/

section Outcomes

variable {S : Type} {step : (o : Op) → S → o.Res → S → Prop} {s : S}

theorem outcomes_tried {ε' : Type} {p : M ε α} {Q : Except (Fault ε') (Except ε α) → S → Prop}
    (h : Outcomes step p s fun r s₁ => match r with
      | .ok a => Q (.ok (.ok a)) s₁
      | .error (.err e) => Q (.ok (.error e)) s₁
      | .error (.panic msg) => Q (.error (.panic msg)) s₁) :
    Outcomes step (attempt p : M ε' (Except ε α)) s Q := by
  refine outcomes_bind (outcomes_attempt (outcomes_mono h fun r s₁ hr => ?_))
  rcases r with (e | msg) | a
  · exact outcomes_ret hr
  · exact outcomes_fail hr
  · exact outcomes_ret hr

theorem outcomes_answer {x : Except ErrorResponse α}
    {Q : Except (Fault ErrorResponse) α → S → Prop} (hok : ∀ a, x = .ok a → Q (.ok a) s)
    (herr : ∀ e, x = .error e → Q (.error (.err e)) s) : Outcomes step (answer x) s Q := by
  cases x with
  | ok a => exact outcomes_ret (hok a rfl)
  | error e => exact outcomes_fail (herr e rfl)

theorem outcomes_okOr {e : Fault ε} {x : Option α} {Q : Except (Fault ε) α → S → Prop}
    (hsome : ∀ a, x = some a → Q (.ok a) s) (hnone : x = none → Q (.error e) s) :
    Outcomes step (okOr e x) s Q := by
  cases x with
  | some a => exact outcomes_ret (hsome a rfl)
  | none => exact outcomes_fail (hnone rfl)

theorem outcomes_unwrap {msg : String} {x : Option α} {Q : Except (Fault ε) α → S → Prop}
    (hsome : ∀ a, x = some a → Q (.ok a) s) (hnone : x = none → Q (.error (.panic msg)) s) :
    Outcomes step (unwrap msg x : M ε α) s Q := by
  cases x with
  | some a => exact outcomes_ret (hsome a rfl)
  | none => exact outcomes_fail (hnone rfl)

variable {w : World}
  {Q : Except (Fault ErrorResponse) Unit → World → Prop}

theorem outcomes_unixTimestamp {Q : Except (Fault ε) Int → World → Prop}
    (h : ∀ ms : Int, w.clock ≤ ms → Q (.ok (ms / 1000)) { w with clock := ms }) :
    Outcomes sem (unixTimestamp : M ε Int) w Q := by
  refine outcomes_bind (outcomes_call fun ms w₁ hms => outcomes_ret (outcomes_ret ?_))
  obtain ⟨hle, rfl⟩ := sem_now.mp hms
  exact h ms hle

theorem outcomes_select {p : Row t → Bool}
    {Q : Except (Fault ErrorResponse) (List (Row t)) → World → Prop}
    (hok : Q (.ok ((w.db t).filter p)) w) (herr : ∀ e, Q (.error (.err e)) w) :
    Outcomes sem (select t p) w Q := by
  refine outcomes_call fun x w₁ hx => ?_
  obtain ⟨rfl, rfl | ⟨e, rfl⟩⟩ := sem_select.mp hx
  · exact outcomes_ret hok
  · exact outcomes_fail (herr e)

theorem outcomes_fetchOne {p : Row t → Bool}
    {Q : Except (Fault ErrorResponse) (Row t) → World → Prop}
    (hok : ∀ r, ((w.db t).filter p).head? = some r → Q (.ok r) w) (herr : ∀ e, Q (.error e) w) :
    Outcomes sem (fetchOne t p) w Q :=
  outcomes_bind (outcomes_select (outcomes_okOr hok fun _ => herr _) fun _ => herr _)

/-- Statements are refused, or they are applied, whatever is answered. -/
theorem outcomes_executeAll {ss : List DbWrite} (hold : ∀ e, Q (.error (.err e)) w)
    (hnew : ∀ r db, applyAll ss w.db = some db → Q r { w with db }) :
    Outcomes sem (execute ss) w Q := by
  refine outcomes_call fun x w₁ hx => ?_
  rcases sem_execute.mp hx with ⟨e, rfl, rfl⟩ | ⟨db, hdb, rfl⟩
  · exact outcomes_fail (hold _)
  · exact outcomes_answer (fun a _ => hnew _ db hdb.applied) fun e _ => hnew _ db hdb.applied

theorem outcomes_cachePut (hold : ∀ e, Q (.error (.err e)) w) (hnew : ∀ r, Q r (w.put c k v)) :
    Outcomes sem (cachePut c k v) w Q := by
  refine outcomes_call fun x w₁ hx => ?_
  rcases sem_cachePut.mp hx with ⟨rfl, rfl⟩ | ⟨e, rfl, rfl | rfl⟩
  · exact outcomes_ret (hnew _)
  · exact outcomes_fail (hold _)
  · exact outcomes_fail (hnew _)

theorem outcomes_cacheDel (hold : ∀ e, Q (.error (.err e)) w) (hnew : ∀ r, Q r (w.del c k)) :
    Outcomes sem (cacheDel c k) w Q := by
  refine outcomes_call fun x w₁ hx => ?_
  rcases sem_cacheDel.mp hx with ⟨rfl, rfl⟩ | ⟨e, rfl, rfl | rfl⟩
  · exact outcomes_ret (hnew _)
  · exact outcomes_fail (hold _)
  · exact outcomes_fail (hnew _)

theorem outcomes_cacheGet {Q : Except (Fault ErrorResponse) (Option α) → World → Prop}
    (hsome : ∀ v a, w.cache c k = some v → as v = some a → Q (.ok (some a)) w)
    (hnone : ∀ w₁, w₁ = w ∧ w.cache c k = none ∨ w₁ = w.del c k → Q (.ok none) w₁)
    (herr : ∀ e, Q (.error e) w) : Outcomes sem (cacheGet c k as) w Q := by
  refine outcomes_bind (outcomes_call fun x w₁ hx => ?_)
  rcases sem_cacheGet.mp hx with ⟨rfl, rfl⟩ | ⟨rfl, rfl⟩ | ⟨e, rfl, rfl⟩
  · rcases hv : w₁.cache c k with - | v
    · exact outcomes_ret (outcomes_ret (hnone _ (.inl ⟨rfl, hv⟩)))
    · exact outcomes_ret (outcomes_bind (outcomes_okOr
        (fun a ha => outcomes_ret (hsome v a hv ha)) fun _ => herr _))
  · exact outcomes_ret (outcomes_ret (hnone _ (.inr rfl)))
  · exact outcomes_fail (herr _)

/-- A hit, a failure, or the result of `load`, which may or may not be cached. -/
theorem outcomes_cached {Q : Except (Fault ErrorResponse) α → World → Prop}
    (hhit : ∀ v a, w.cache c k = some v → as v = some a → Q (.ok a) w) (herr : ∀ e, Q (.error e) w)
    (hload : ∀ w₁, w₁ = w ∨ w₁ = w.del c k → Outcomes sem load w₁ fun r w₂ =>
      match r with
      | .error e => Q (.error e) w₂
      | .ok a => (∀ e, Q (.error e) w₂) ∧ (∀ e, Q (.error e) (w₂.put c k (wrap a))) ∧
          Q (.ok a) (w₂.put c k (wrap a))) :
    Outcomes sem (cached c k as wrap load) w Q := by
  refine outcomes_bind (outcomes_cacheGet (fun v a hv ha => outcomes_ret (hhit v a hv ha))
    (fun w₁ hw₁ => ?_) herr)
  refine outcomes_bind (outcomes_mono (hload w₁ (hw₁.imp_left And.left)) fun r w₂ hr => ?_)
  rcases r with e | a
  · exact hr
  obtain ⟨hold, hnew, hok⟩ := hr
  refine outcomes_bind (outcomes_cachePut (fun e => hold _) fun r => ?_)
  rcases r with e | u
  · exact hnew e
  · exact outcomes_ret hok

end Outcomes

/-! ### Runs without failing stores -/

/-- The database and the caches do not answer with an error. -/
def Op.Answered : (o : Op) → o.Res → Prop
  | .select _ _, x => ∃ rows, x = .ok rows
  | .execute _, x => x = .ok ()
  | .cacheGet _ _, x => ∃ v, x = .ok v
  | .cachePut _ _ _, x => x = .ok ()
  | .cacheDel _ _, x => x = .ok ()
  | _, _ => True

/-- The operations, the stores being up. -/
abbrev semUp : (o : Op) → World → o.Res → World → Prop := answering sem Op.Answered

/-- The outcome of an operation under a choice other than a failure. -/
def Op.runUp (c : Choice) (o : Op) (w : World) : Option (o.Res × World) :=
  match c with
  | .fail _ _ => none
  | c => Op.run c o w

section Answered

variable {w : World}
  {Q : Except (Fault ErrorResponse) Unit → World → Prop}

theorem semUp_of_runUp {x : o.Res} (h : Pool.semOf Op.runUp o w x w') :
    semUp o w x w' := by
  obtain ⟨c, hc⟩ := h
  have hrun : Op.run c o w = some (x, w') := by
    cases c with
    | fail e applied => cases hc
    | _ => exact hc
  refine ⟨⟨c, hrun⟩, ?_⟩
  -- the only choice besides a failure that a store has
  have hok : ∀ {w w' : World} {y : Except ErrorResponse Unit × World},
      (∀ e a, c ≠ .fail e a) → runWrite w w' c = some y → y.1 = .ok () := by
    intro w w' y hfail hy
    cases c with
    | ok => cases hy; rfl
    | fail e a => exact absurd rfl (hfail e a)
    | _ => cases hy
  have hfail : ∀ e a, c ≠ .fail e a := by
    rintro e a rfl
    cases hc
  cases o with
  | select t p =>
      cases c with
      | ok => cases hrun; exact ⟨_, rfl⟩
      | fail e a => exact absurd rfl (hfail e a)
      | _ => cases hrun
  | execute ss =>
      simp only [Op.run] at hrun
      split at hrun
      · exact hok hfail hrun
      · cases c with
        | fail e a => exact absurd rfl (hfail e a)
        | _ => cases hrun
  | cacheGet n k =>
      cases c with
      | ok => cases hrun; exact ⟨_, rfl⟩
      | miss => cases hrun; exact ⟨_, rfl⟩
      | fail e a => exact absurd rfl (hfail e a)
      | _ => cases hrun
  | cachePut n k v => exact hok hfail hrun
  | cacheDel n k => exact hok hfail hrun
  | _ => trivial

/-- A run of the stores that answer, given by its choices. -/
theorem exists_exec_semUp (p : Prog Op Op.Res ε α) (cs : List Choice) (w : World)
    (check : Except ε α → World → Bool)
    (h : (Pool.runWith Op.runUp p cs w).any (fun x => check x.1 x.2) = true) :
    ∃ r w', Exec semUp p w r w' ∧ check r w' = true := by
  obtain ⟨r, w', hx, hr⟩ := Pool.exists_exec_of_choices Op.runUp p cs w check h
  exact ⟨r, w', hx.mono fun _ _ _ _ hs => semUp_of_runUp hs, hr⟩

theorem answered_unixTimestamp {Q : Except (Fault ε) Int → World → Prop}
    (h : ∀ ms : Int, w.clock ≤ ms → Q (.ok (ms / 1000)) { w with clock := ms }) :
    Outcomes semUp (unixTimestamp : M ε Int) w Q := by
  refine outcomes_bind (outcomes_call fun ms w₁ hms => outcomes_ret (outcomes_ret ?_))
  obtain ⟨hle, rfl⟩ := sem_now.mp hms.1
  exact h ms hle

theorem answered_select {p : Row t → Bool}
    {Q : Except (Fault ErrorResponse) (List (Row t)) → World → Prop}
    (h : Q (.ok ((w.db t).filter p)) w) : Outcomes semUp (select t p) w Q := by
  refine outcomes_call fun x w₁ hx => ?_
  obtain ⟨hsem, rows, rfl⟩ := hx
  obtain ⟨rfl, hrows | ⟨e, he⟩⟩ := sem_select.mp hsem
  · cases hrows
    exact outcomes_ret h
  · cases he

theorem answered_execute {ss : List DbWrite}
    (h : ∀ db, applyAll ss w.db = some db → Q (.ok ()) { w with db }) :
    Outcomes semUp (execute ss) w Q := by
  refine outcomes_call fun x w₁ hx => ?_
  obtain ⟨hsem, rfl⟩ := hx
  obtain ⟨db, hdb, rfl⟩ := sem_execute_ok.mp hsem
  exact outcomes_ret (h db hdb.applied)

theorem answered_cachePut (h : Q (.ok ()) (w.put c k v)) :
    Outcomes semUp (cachePut c k v) w Q := by
  refine outcomes_call fun x w₁ hx => ?_
  obtain ⟨hsem, rfl⟩ := hx
  rcases sem_cachePut.mp hsem with ⟨-, rfl⟩ | ⟨e, he, -⟩
  · exact outcomes_ret h
  · cases he

theorem answered_cacheDel (h : Q (.ok ()) (w.del c k)) :
    Outcomes semUp (cacheDel c k) w Q := by
  refine outcomes_call fun x w₁ hx => ?_
  obtain ⟨hsem, rfl⟩ := hx
  rcases sem_cacheDel.mp hsem with ⟨-, rfl⟩ | ⟨e, he, -⟩
  · exact outcomes_ret h
  · cases he

theorem answered_fetchOne {p : Row t → Bool}
    {Q : Except (Fault ErrorResponse) (Row t) → World → Prop}
    (hsome : ∀ r, ((w.db t).filter p).head? = some r → Q (.ok r) w)
    (hnone : ((w.db t).filter p).head? = none → Q (.error (err .notFound "not found")) w) :
    Outcomes semUp (fetchOne t p) w Q :=
  outcomes_bind (answered_select (outcomes_okOr hsome hnone))

/-- A hit at the right type or at another one, or a miss. -/
theorem answered_cacheGet_any {Q : Except (Fault ErrorResponse) (Option α) → World → Prop}
    (hhit : ∀ v a, w.cache c k = some v → as v = some a → Q (.ok (some a)) w)
    (hother : ∀ v, w.cache c k = some v → as v = none →
      Q (.error (err .internal "Internal Cache error: Deserialization")) w)
    (hmiss : ∀ w₁, w₁ = w ∨ w₁ = w.del c k → Q (.ok none) w₁) :
    Outcomes semUp (cacheGet c k as) w Q := by
  refine outcomes_bind (outcomes_call fun x w₁ hx => ?_)
  rcases sem_cacheGet.mp hx.1 with ⟨rfl, rfl⟩ | ⟨rfl, rfl⟩ | ⟨e, rfl, -⟩
  · rcases hv : w₁.cache c k with - | v
    · exact outcomes_ret (outcomes_ret (hmiss w₁ (.inl rfl)))
    · refine outcomes_ret (outcomes_bind (outcomes_okOr (fun a ha => ?_) (hother v hv)))
      exact outcomes_ret (hhit v a hv ha)
  · exact outcomes_ret (outcomes_ret (hmiss _ (.inr rfl)))
  · obtain ⟨-, v, hv⟩ := hx
    cases hv

theorem answered_cacheGet {Q : Except (Fault ErrorResponse) (Option α) → World → Prop}
    (hhit : ∀ v, w.cache c k = some v → ∃ a, as v = some a ∧ Q (.ok (some a)) w)
    (hmiss : ∀ w₁, w₁ = w ∨ w₁ = w.del c k → Q (.ok none) w₁) :
    Outcomes semUp (cacheGet c k as) w Q := by
  refine answered_cacheGet_any (fun v b hv hb => ?_) (fun v hv hn => ?_) hmiss
  · obtain ⟨a, ha, hQ⟩ := hhit v hv
    rw [ha] at hb
    cases hb
    exact hQ
  · obtain ⟨a, ha, -⟩ := hhit v hv
    rw [ha] at hn
    cases hn

/-- A hit at the right type, or the result of `load`, which is cached. -/
theorem answered_cached {Q : Except (Fault ErrorResponse) α → World → Prop}
    (hhit : ∀ v, w.cache c k = some v → ∃ a, as v = some a ∧ Q (.ok a) w)
    (hload : ∀ w₁, w₁ = w ∨ w₁ = w.del c k → Outcomes semUp load w₁ fun r w₂ =>
      match r with
      | .ok a => Q (.ok a) (w₂.put c k (wrap a))
      | .error e => Q (.error e) w₂) : Outcomes semUp (cached c k as wrap load) w Q := by
  refine outcomes_bind (answered_cacheGet (fun v hv => ?_) fun w₁ hw₁ => ?_)
  · obtain ⟨a, ha, hQ⟩ := hhit v hv
    exact ⟨a, ha, outcomes_ret hQ⟩
  · refine outcomes_bind (outcomes_mono (hload w₁ hw₁) fun r w₂ hr => ?_)
    rcases r with e | a
    · exact hr
    · exact outcomes_bind (answered_cachePut (outcomes_ret hr))

theorem strict_answer {A : (o : Op) → o.Res → Prop} (x : Except ErrorResponse α) :
    Strict A (answer x) := by
  cases x <;> trivial

theorem strict_unixTimestamp : Strict Op.Answered (unixTimestamp : M ε Int) :=
  strict_bind (fun _ => ⟨fun h => absurd trivial h, trivial⟩) fun _ => trivial

theorem strict_select (t : Table) (p : Row t → Bool) : Strict Op.Answered (select t p) := by
  intro x
  refine ⟨fun h => ?_, strict_answer x⟩
  cases x with
  | ok rows => exact absurd ⟨rows, rfl⟩ h
  | error e => exact ⟨_, rfl⟩

theorem strict_execute (ss : List DbWrite) : Strict Op.Answered (execute ss) := by
  intro x
  refine ⟨fun h => ?_, strict_answer x⟩
  cases x with
  | ok u => exact absurd rfl h
  | error e => exact ⟨_, rfl⟩

theorem strict_cachePut (c : CacheName) (k : String) (v : CacheVal) :
    Strict Op.Answered (cachePut c k v) := by
  intro x
  refine ⟨fun h => ?_, strict_answer x⟩
  cases x with
  | ok u => exact absurd rfl h
  | error e => exact ⟨_, rfl⟩

theorem strict_cacheDel (c : CacheName) (k : String) : Strict Op.Answered (cacheDel c k) := by
  intro x
  refine ⟨fun h => ?_, strict_answer x⟩
  cases x with
  | ok u => exact absurd rfl h
  | error e => exact ⟨_, rfl⟩

end Answered

/-! ### Preconditions of these calls -/

section Wp

variable {S : Type} {step : (o : Op) → S → o.Res → S → Prop} {I : S → Prop} {Rl G : S → S → Prop}
  {s : S}
  {P : S → Prop}

/-- How the answer of an operation ends the call. -/
def ended : Except ErrorResponse α → Except (Fault ErrorResponse) α
  | .ok a => .ok a
  | .error e => .error (.err e)

theorem wp_answer {x : Except ErrorResponse α} {Q : Except (Fault ErrorResponse) α → S → Prop}
    (h : ∀ s₁, Rl s s₁ → I s₁ → Q (ended x) s₁) : wp step I Rl G (answer x) Q s := by
  cases x <;> exact h

theorem wp_okOr {e : Fault ε} {x : Option α} {Q : Except (Fault ε) α → S → Prop}
    (h : ∀ s₁, Rl s s₁ → I s₁ → ∀ r, (x = none ∧ r = .error e ∨ ∃ a, x = some a ∧ r = .ok a) →
      Q r s₁) : wp step I Rl G (okOr e x) Q s := by
  cases x with
  | none => exact fun s₁ hr hi => h s₁ hr hi _ (.inl ⟨rfl, rfl⟩)
  | some a => exact fun s₁ hr hi => h s₁ hr hi _ (.inr ⟨a, rfl, rfl⟩)

/-- Trying a request: what its outcome satisfies has to be stable. -/
theorem wp_tried {ε' : Type} (hrefl : ∀ s, Rl s s) {p : M ε α} {P : Except ε α → S → Prop}
    (hP : ∀ x s s', P x s → Rl s s' → P x s')
    (hp : wp step I Rl G p (fun r s => ∀ x : Except ε α, r = x.mapError .err → P x s) s) :
    wp step I Rl G (attempt p : M ε' (Except ε α)) (fun r s => ∀ x, r = .ok x → P x s) s := by
  refine wp_bind hrefl (wp_attempt (wp_mono hp fun r s hr => ?_))
  rcases r with (e | msg) | a
  · intro s₁ hs₁ _ x hx
    cases hx
    exact hP _ _ _ (hr (.error e) rfl) hs₁
  · intro s₁ _ _ x hx
    cases hx
  · intro s₁ hs₁ _ x hx
    cases hx
    exact hP _ _ _ (hr (.ok a) rfl) hs₁

/-- What `cache_get!` makes of the answer of the cache. -/
def gotten (as : CacheVal → Option α) :
    Except ErrorResponse (Option CacheVal) → Except (Fault ErrorResponse) (Option α)
  | .error e => .error (.err e)
  | .ok none => .ok none
  | .ok (some v) =>
      match as v with
      | some a => .ok (some a)
      | none => .error (err .internal "Internal Cache error: Deserialization")

theorem wp_cacheGet {Q : Except (Fault ErrorResponse) (Option α) → S → Prop}
    (h : ∀ s₁, Rl s s₁ → I s₁ → ∀ x s₂, step (.cacheGet c k) s₁ x s₂ →
      I s₂ ∧ G s₁ s₂ ∧ ∀ s₃, Rl s₂ s₃ → I s₃ → Q (gotten as x) s₃) :
    wp step I Rl G (cacheGet c k as) Q s := by
  intro s₁ hr hi x s₂ hx
  obtain ⟨hi₂, hg, hQ⟩ := h s₁ hr hi x s₂ hx
  refine ⟨hi₂, hg, ?_⟩
  rcases x with e | - | v
  · exact hQ
  · exact hQ
  · simp only [gotten] at hQ
    show wp step I Rl G (okOr _ (as v) >>= fun a => ret (some a)) Q s₂
    rcases ha : as v with - | a
    · rw [ha] at hQ
      exact hQ
    · rw [ha] at hQ
      exact hQ

/-! Operations whose error ends the call: only their success has to establish anything. -/

theorem wp_select {p : Row t → Bool} {P : List (Row t) → S → Prop}
    (hP : ∀ a s s', P a s → Rl s s' → P a s')
    (h : ∀ s₁, Rl s s₁ → I s₁ → ∀ x s₂, step (.select t p) s₁ x s₂ →
      I s₂ ∧ G s₁ s₂ ∧ ∀ a, x = .ok a → P a s₂) :
    wp step I Rl G (select t p) (fun r s => ∀ a, r = .ok a → P a s) s := by
  intro s₁ hr hi x s₂ hx
  obtain ⟨hi₂, hg, hQ⟩ := h s₁ hr hi x s₂ hx
  refine ⟨hi₂, hg, wp_answer fun s₃ hr₃ _ a ha => ?_⟩
  cases x with
  | ok b => cases ha; exact hP _ _ _ (hQ _ rfl) hr₃
  | error e => cases ha

theorem wp_execute {l : List DbWrite} (hP : ∀ s s', P s → Rl s s' → P s')
    (h : ∀ s₁, Rl s s₁ → I s₁ → ∀ x s₂, step (.execute l) s₁ x s₂ →
      I s₂ ∧ G s₁ s₂ ∧ (x = .ok () → P s₂)) :
    wp step I Rl G (execute l) (fun r s => ∀ a, r = .ok a → P s) s := by
  intro s₁ hr hi x s₂ hx
  obtain ⟨hi₂, hg, hQ⟩ := h s₁ hr hi x s₂ hx
  refine ⟨hi₂, hg, wp_answer fun s₃ hr₃ _ a ha => ?_⟩
  cases x with
  | ok b => exact hP _ _ (hQ rfl) hr₃
  | error e => cases ha

theorem wp_cachePut (hP : ∀ s s', P s → Rl s s' → P s')
    (h : ∀ s₁, Rl s s₁ → I s₁ → ∀ x s₂, step (.cachePut c k v) s₁ x s₂ →
      I s₂ ∧ G s₁ s₂ ∧ (x = .ok () → P s₂)) :
    wp step I Rl G (cachePut c k v) (fun r s => ∀ a, r = .ok a → P s) s := by
  intro s₁ hr hi x s₂ hx
  obtain ⟨hi₂, hg, hQ⟩ := h s₁ hr hi x s₂ hx
  refine ⟨hi₂, hg, wp_answer fun s₃ hr₃ _ a ha => ?_⟩
  cases x with
  | ok b => exact hP _ _ (hQ rfl) hr₃
  | error e => cases ha

theorem wp_cacheDel (hP : ∀ s s', P s → Rl s s' → P s')
    (h : ∀ s₁, Rl s s₁ → I s₁ → ∀ x s₂, step (.cacheDel c k) s₁ x s₂ →
      I s₂ ∧ G s₁ s₂ ∧ (x = .ok () → P s₂)) :
    wp step I Rl G (cacheDel c k) (fun r s => ∀ a, r = .ok a → P s) s := by
  intro s₁ hr hi x s₂ hx
  obtain ⟨hi₂, hg, hQ⟩ := h s₁ hr hi x s₂ hx
  refine ⟨hi₂, hg, wp_answer fun s₃ hr₃ _ a ha => ?_⟩
  cases x with
  | ok b => exact hP _ _ (hQ rfl) hr₃
  | error e => cases ha

theorem wp_unixTimestamp (hrefl : ∀ s, Rl s s) {P : Int → S → Prop}
    (hP : ∀ a s s', P a s → Rl s s' → P a s')
    (h : ∀ s₁, Rl s s₁ → I s₁ → ∀ (ms : Int) s₂, step .now s₁ ms s₂ →
      I s₂ ∧ G s₁ s₂ ∧ P (ms / 1000) s₂) :
    wp step I Rl G (unixTimestamp : M ε Int) (fun r s => ∀ a, r = .ok a → P a s) s := by
  refine wp_bind hrefl fun s₁ hr hi ms s₂ hx => ?_
  obtain ⟨hi₂, hg, hQ⟩ := h s₁ hr hi ms s₂ hx
  refine ⟨hi₂, hg, fun s₃ hr₃ _ s₄ hr₄ _ a ha => ?_⟩
  cases ha
  exact hP _ _ _ (hP _ _ _ hQ hr₃) hr₄

end Wp

/-! ### What these calls have seen -/

/-- The answer is one that the operation can give. -/
def Op.Possible (o : Op) (x : o.Res) : Prop := ∃ w w', sem o w x w'

theorem Op.possible_select {p : Row t → Bool} {rows : List (Row t)}
    (h : (Op.select t p).Possible (.ok rows)) : ∀ r ∈ rows, p r = true := by
  obtain ⟨w, w', h⟩ := h
  rcases (sem_select.mp h).2 with h | ⟨e, h⟩
  · cases h
    exact fun r hr => (List.mem_filter.mp hr).2
  · cases h

section Sees

open Pool

variable {G : List (Seen Op Op.Res) → Seen Op Op.Res → Prop} {tr : List (Seen Op Op.Res)}
  {F : α → List (Seen Op Op.Res) → Prop}
  {A : (o : Op) → o.Res → Prop}

theorem sees_answer {x : Except ErrorResponse α} :
    Sees A G (answer x) (fun a tr' => tr' = tr ∧ x = .ok a) tr := by
  cases x with
  | ok a => exact sees_ret ⟨rfl, rfl⟩
  | error e => exact sees_fail

theorem sees_okOr {e : Fault ε} {x : Option α} :
    Sees A G (okOr e x) (fun a tr' => tr' = tr ∧ x = some a) tr := by
  cases x with
  | some a => exact sees_ret ⟨rfl, rfl⟩
  | none => exact sees_fail

theorem sees_unwrap {msg : String} {x : Option α} :
    Sees A G (unwrap msg x : M ε α) (fun a tr' => tr' = tr ∧ x = some a) tr := by
  cases x with
  | some a => exact sees_ret ⟨rfl, rfl⟩
  | none => exact sees_fail

theorem sees_tried {ε' : Type} {p : M ε α} (hp : Sees A G p F tr) :
    Sees A G (attempt p : M ε' (Except ε α)) (fun r tr' => ∀ a, r = .ok a → F a tr') tr := by
  refine sees_bind (sees_attempt hp) fun r tr' _ hr => ?_
  rcases r with (e | msg) | a
  · exact sees_ret fun a ha => by cases ha
  · exact sees_fail
  · refine sees_ret fun b hb => ?_
    cases hb
    exact hr a rfl

theorem sees_ignoreErr {p : M ErrorResponse α} (hp : Sees A G p F tr) :
    Sees A G (ignoreErr p) (fun _ _ => True) tr :=
  sees_bind (sees_tried hp) fun _ _ _ _ => sees_ret trivial

theorem sees_now (hG : ∀ ms : Int, G tr ⟨.now, ms⟩) :
    Sees Op.Possible G (now : M ε Int) (fun ms tr' => tr' = ⟨.now, ms⟩ :: tr) tr :=
  sees_call (o := Op.now) (fun ms _ => hG ms) fun _ _ => sees_ret rfl

theorem sees_unixTimestamp (hG : ∀ ms : Int, G tr ⟨.now, ms⟩) :
    Sees Op.Possible G (unixTimestamp : M ε Int)
      (fun s tr' => ∃ ms : Int, tr' = ⟨.now, ms⟩ :: tr ∧ s = ms / 1000) tr := by
  refine sees_bind (sees_now hG) fun ms tr' _ htr => sees_ret ?_
  exact ⟨ms, htr, rfl⟩

theorem sees_getRand {n : ℕ} (hG : ∀ s : String, G tr ⟨.getRand n, s⟩) :
    Sees Op.Possible G (getRand n : M ε String) (fun s tr' => tr' = ⟨.getRand n, s⟩ :: tr) tr :=
  sees_call (o := Op.getRand n) (fun s _ => hG s) fun _ _ => sees_ret rfl

theorem sees_select {p : Row t → Bool} (hG : ∀ x, G tr ⟨.select t p, x⟩) :
    Sees Op.Possible G (select t p)
      (fun rows tr' => tr' = ⟨.select t p, .ok rows⟩ :: tr ∧ ∀ r ∈ rows, p r = true) tr := by
  refine sees_call (o := Op.select t p) (fun x _ => hG x) fun x hx => ?_
  cases x with
  | ok rows => exact sees_ret ⟨rfl, Op.possible_select hx⟩
  | error e => exact sees_fail

theorem sees_fetchOne {p : Row t → Bool} (hG : ∀ x, G tr ⟨.select t p, x⟩) :
    Sees Op.Possible G (fetchOne t p)
      (fun r tr' => (∃ rows, tr' = ⟨.select t p, .ok (r :: rows)⟩ :: tr) ∧ p r = true) tr := by
  refine sees_bind (sees_select hG) fun rows tr₁ _ ⟨htr, hrows⟩ => ?_
  refine sees_mono sees_okOr fun r tr₂ _ ⟨htr₂, hr⟩ => ?_
  cases rows with
  | nil => cases hr
  | cons r' rows =>
      cases hr
      exact ⟨⟨rows, by rw [htr₂, htr]⟩, hrows r (by simp)⟩

theorem sees_execute {ss : List DbWrite} (hG : ∀ x, G tr ⟨.execute ss, x⟩) :
    Sees Op.Possible G (execute ss) (fun _ tr' => tr' = ⟨.execute ss, .ok ()⟩ :: tr) tr := by
  refine sees_call (o := Op.execute ss) (fun x _ => hG x) fun x _ => ?_
  cases x with
  | ok u => exact sees_ret rfl
  | error e => exact sees_fail

theorem sees_cachePut (hG : ∀ x, G tr ⟨.cachePut c k v, x⟩) :
    Sees Op.Possible G (cachePut c k v) (fun _ tr' => tr' = ⟨.cachePut c k v, .ok ()⟩ :: tr) tr := by
  refine sees_call (o := Op.cachePut c k v) (fun x _ => hG x) fun x _ => ?_
  cases x with
  | ok u => exact sees_ret rfl
  | error e => exact sees_fail

theorem sees_cacheDel (hG : ∀ x, G tr ⟨.cacheDel c k, x⟩) :
    Sees Op.Possible G (cacheDel c k) (fun _ tr' => tr' = ⟨.cacheDel c k, .ok ()⟩ :: tr) tr := by
  refine sees_call (o := Op.cacheDel c k) (fun x _ => hG x) fun x _ => ?_
  cases x with
  | ok u => exact sees_ret rfl
  | error e => exact sees_fail

theorem sees_cacheGet (hG : ∀ x, G tr ⟨.cacheGet c k, x⟩) :
    Sees Op.Possible G (cacheGet c k as) (fun x tr' => ∃ y, tr' = ⟨.cacheGet c k, .ok y⟩ :: tr ∧
      (x = none ∧ y = none ∨ ∃ v a, x = some a ∧ y = some v ∧ as v = some a)) tr := by
  have hget : Sees Op.Possible G (call (.cacheGet c k) answer)
      (fun y tr' => tr' = ⟨.cacheGet c k, .ok y⟩ :: tr) tr := by
    refine sees_call (o := Op.cacheGet c k) (fun x _ => hG x) fun x _ => ?_
    refine sees_mono sees_answer fun y tr' _ ⟨htr, hx⟩ => ?_
    rw [htr, hx]
  refine sees_bind hget fun y tr₁ _ htr => ?_
  cases y with
  | none => exact sees_ret ⟨none, htr, .inl ⟨rfl, rfl⟩⟩
  | some v =>
      refine sees_bind sees_okOr fun a tr₂ _ ⟨htr₂, ha⟩ => sees_ret ?_
      exact ⟨some v, htr₂.trans htr, .inr ⟨v, a, rfl, rfl, ha⟩⟩

/-- A read through a cache has seen its value in the cache, or it was loaded. -/
theorem sees_cached (hget : ∀ x, G tr ⟨.cacheGet c k, x⟩)
    (hload : ∀ tr', (∀ v ∈ tr, v ∈ tr') → Sees Op.Possible G load F tr')
    (hput : ∀ tr' a x, F a tr' → G tr' ⟨.cachePut c k (wrap a), x⟩) :
    Sees Op.Possible G (cached c k as wrap load) (fun a tr' =>
      (∃ v, tr' = ⟨.cacheGet c k, .ok (some v)⟩ :: tr ∧ as v = some a) ∨
      ∃ tr₁, F a tr₁ ∧ tr' = ⟨.cachePut c k (wrap a), .ok ()⟩ :: tr₁) tr := by
  refine sees_bind (sees_cacheGet hget) fun x tr₁ hsub hx => ?_
  obtain ⟨y, htr, ⟨rfl, rfl⟩ | ⟨v, a, rfl, rfl, ha⟩⟩ := hx
  · refine sees_bind (hload tr₁ hsub) fun a tr₂ _ ha => ?_
    refine sees_bind (sees_cachePut (hput tr₂ a · ha)) fun _ tr₃ _ htr₃ => sees_ret ?_
    exact .inr ⟨tr₂, ha, htr₃⟩
  · exact sees_ret (.inl ⟨v, htr, ha⟩)

end Sees

/-! ### All operations of these calls -/

section Within

variable {φ : Op → Prop}

theorem within_answer (x : Except ErrorResponse α) : (answer x).Within φ := by
  cases x <;> trivial

theorem within_okOr (e : Fault ε) (x : Option α) : (okOr e x).Within φ := by
  cases x <;> trivial

theorem within_tried {ε' : Type} {p : M ε α} (hp : p.Within φ) :
    (attempt p : M ε' (Except ε α)).Within φ := by
  refine within_bind (within_attempt hp) fun r => ?_
  rcases r with (e | msg) | a <;> trivial

theorem within_ignoreErr {p : M ErrorResponse α} (hp : p.Within φ) : (ignoreErr p).Within φ :=
  within_bind (within_tried hp) fun _ => trivial

end Within

/-! ### What a request writes -/

/-- The operation changes only the tables `ts` and puts only the kinds `cs` of
entries into the caches.  Entries of any kind can go. -/
def Op.Touches (ts : List Table) (cs : List (CacheName × Slot)) : Op → Prop
  | .execute ss => ∀ s ∈ ss, s.table ∈ ts
  | .cachePut c _ v => (c, v.slot) ∈ cs
  | _ => True

theorem Op.touches_cacheGet (c : CacheName) (k : String) : (Op.cacheGet c k).Touches [] [] :=
  trivial

theorem Op.touches_cacheDel (c : CacheName) (k : String) : (Op.cacheDel c k).Touches [] [] :=
  trivial

/-- All operations of the program do. -/
def Touches (ts : List Table) (cs : List (CacheName × Slot)) (p : Prog Op Op.Res ε α) : Prop :=
  p.Within (Op.Touches ts cs)

/-- The tables outside `ts` are the same, and the new entries of the caches are among
the kinds `cs`. -/
structure Frame (ts : List Table) (cs : List (CacheName × Slot)) (w w' : World) : Prop where
  db : ∀ t, t ∉ ts → w'.db t = w.db t
  cache : ∀ c k v, w'.cache c k = some v → w.cache c k = some v ∨ (c, v.slot) ∈ cs
  clock : w.clock ≤ w'.clock
  issued : ∀ s ∈ w.issued, s ∈ w'.issued

theorem Frame.refl (ts : List Table) (cs : List (CacheName × Slot)) (w : World) :
    Frame ts cs w w :=
  ⟨fun _ _ => rfl, fun _ _ _ => .inl, Int.le_refl _, fun _ h => h⟩

theorem Frame.trans {w₁ w₂ w₃ : World} (h₁ : Frame ts cs w₁ w₂) (h₂ : Frame ts cs w₂ w₃) :
    Frame ts cs w₁ w₃ where
  db t ht := (h₂.db t ht).trans (h₁.db t ht)
  cache c k v hv := by
    rcases h₂.cache c k v hv with h | h
    · exact h₁.cache c k v h
    · exact .inr h
  clock := Int.le_trans h₁.clock h₂.clock
  issued s hs := h₂.issued s (h₁.issued s hs)

theorem DbWrite.apply_frame {s : DbWrite} {db db' : Db} (h : s.apply db = some db')
    (ht : s.table ≠ t) : db' t = db t := by
  cases s with
  | insert t' r =>
      simp only [DbWrite.apply] at h
      split at h
      · cases h
      · cases h; exact Function.update_of_ne (Ne.symm ht) _ _
  | upsert t' r => cases h; exact Function.update_of_ne (Ne.symm ht) _ _
  | update t' p f => cases h; exact Function.update_of_ne (Ne.symm ht) _ _
  | delete t' p => cases h; exact Function.update_of_ne (Ne.symm ht) _ _
  | cascade t' p => cases h; exact Function.update_of_ne (Ne.symm ht) _ _

theorem applyAll_frame {ss : List DbWrite} {db db' : Db} (h : applyAll ss db = some db')
    (ht : ∀ s ∈ ss, s.table ≠ t) : db' t = db t := by
  induction ss generalizing db with
  | nil => cases h; rfl
  | cons s ss ih =>
      obtain ⟨db₁, h₁, h₂⟩ := Option.bind_eq_some_iff.mp h
      rw [ih h₂ fun s hs => ht s (by simp [hs])]
      exact DbWrite.apply_frame h₁ (ht s (by simp))

theorem frame_del (ts : List Table) (cs : List (CacheName × Slot)) (w : World) (c : CacheName)
    (k : String) : Frame ts cs w (w.del c k) where
  db _ _ := rfl
  cache c' k' v hv := by
    rw [World.del_cache] at hv
    split at hv
    · cases hv
    · exact .inl hv
  clock := Int.le_refl _
  issued _ h := h

theorem frame_put (w : World) (hc : (c, v.slot) ∈ cs) (k : String) :
    Frame ts cs w (w.put c k v) where
  db _ _ := rfl
  cache c' k' v' hv := by
    rw [World.put_cache] at hv
    split at hv
    · next h =>
        cases hv
        rw [h.1]
        exact .inr hc
    · exact .inl hv
  clock := Int.le_refl _
  issued _ h := h

/-- **Frame rule of one operation.** -/
theorem sem_frame (ho : o.Touches ts cs) (h : sem o w x w') : Frame ts cs w w' := by
  cases o with
  | now =>
      obtain ⟨hle, rfl⟩ := sem_now.mp h
      exact ⟨fun _ _ => rfl, fun _ _ _ => .inl, hle, fun _ h => h⟩
  | getRand n =>
      obtain ⟨-, -, -, rfl⟩ := sem_getRand.mp h
      exact ⟨fun _ _ => rfl, fun _ _ _ => .inl, Int.le_refl _, fun s hs => by simp [hs]⟩
  | newUuid =>
      obtain ⟨c, hc⟩ := h
      cases c with
      | rand s =>
          simp only [Op.run] at hc
          split at hc
          · cases hc
            exact ⟨fun _ _ => rfl, fun _ _ _ => .inl, Int.le_refl _, fun s hs => by simp [hs]⟩
          · cases hc
      | _ => cases hc
  | select t p =>
      obtain ⟨rfl, -⟩ := sem_select.mp h
      exact .refl ts cs _
  | execute ss =>
      rcases sem_execute.mp h with ⟨e, -, rfl⟩ | ⟨db, hdb, rfl⟩
      · exact .refl ts cs _
      · refine ⟨fun t ht => ?_, fun _ _ _ => .inl, Int.le_refl _, fun _ h => h⟩
        exact applyAll_frame hdb.applied fun s hs he => ht (he ▸ ho s hs)
  | cacheGet c k =>
      rcases sem_cacheGet.mp h with ⟨-, rfl⟩ | ⟨-, rfl⟩ | ⟨e, -, rfl⟩
      · exact .refl ts cs _
      · exact frame_del ts cs _ _ _
      · exact .refl ts cs _
  | cachePut c k v =>
      rcases sem_cachePut.mp h with ⟨-, rfl⟩ | ⟨e, -, rfl | rfl⟩
      · exact frame_put _ ho _
      · exact .refl ts cs _
      · exact frame_put _ ho _
  | cacheDel c k =>
      rcases sem_cacheDel.mp h with ⟨-, rfl⟩ | ⟨e, -, rfl | rfl⟩
      · exact frame_del ts cs _ _ _
      · exact .refl ts cs _
      · exact frame_del ts cs _ _ _
  | finishPasskeyAuthentication cred st =>
      obtain ⟨c, hc⟩ := h
      cases c with
      | assertion r =>
          simp only [Op.run] at hc
          split at hc
          · cases hc; exact .refl ts cs _
          · cases hc
      | refuse msg => cases hc; exact .refl ts cs _
      | _ => cases hc
  | _ =>
      obtain ⟨c, hc⟩ := h
      cases c <;> first | (cases hc; exact .refl ts cs _) | cases hc

/-- The tables that the operation writes. -/
def Op.tables : Op → List Table
  | .execute ss => ss.map DbWrite.table
  | _ => []

theorem Op.touches_tables (o : Op) : ∃ cs, o.Touches o.tables cs := by
  cases o with
  | execute ss => exact ⟨[], fun _ hs => List.mem_map_of_mem hs⟩
  | cachePut c k v => exact ⟨[(c, v.slot)], List.mem_singleton_self _⟩
  | _ => exact ⟨[], trivial⟩

theorem sem_tables (h : sem o w x w') :
    ∃ cs, Frame o.tables cs w w' := by
  obtain ⟨cs, hcs⟩ := o.touches_tables
  exact ⟨cs, sem_frame hcs h⟩

theorem sem_table (h : sem o w x w') (ht : t ∉ o.tables) : w'.db t = w.db t := by
  obtain ⟨cs, hframe⟩ := sem_tables h
  exact hframe.db t ht

/-- All operations but writes leave the tables as they are. -/
theorem sem_db (h : sem o w x w') (ho : ∀ ss, o ≠ .execute ss) : w'.db = w.db := by
  funext t
  apply sem_table h
  cases o with
  | execute ss => exact absurd rfl (ho ss)
  | _ => exact List.not_mem_nil

theorem sem_clock (h : sem o w x w') : w.clock ≤ w'.clock := by
  obtain ⟨cs, hframe⟩ := sem_tables h
  exact hframe.clock

theorem exec_clock {r : Except ε α} (h : Exec sem p w r w') : w.clock ≤ w'.clock :=
  h.rel (T := fun w w' => w.clock ≤ w'.clock) (φ := fun _ => True) (within_of_forall (fun _ => trivial) p)
    (fun _ => Int.le_refl _) (fun _ _ _ => Int.le_trans) fun _ _ _ _ _ hx => sem_clock hx

/-- An entry of a cache was there before, or has just been put there. -/
theorem sem_cache (h : sem o w x w') (hv : w'.cache c k = some v) :
    w.cache c k = some v ∨ o = .cachePut c k v := by
  have hframe : ∀ ts : List Table, o.Touches ts [] → w.cache c k = some v := by
    intro ts ho
    rcases (sem_frame ho h).cache c k v hv with h | h
    · exact h
    · cases h
  cases o with
  | cachePut c' k' v' =>
      have hput : (w.put c' k' v').cache c k = some v →
          w.cache c k = some v ∨ Op.cachePut c' k' v' = .cachePut c k v := by
        intro hv
        rw [World.put_cache] at hv
        split at hv
        · next hk =>
            obtain ⟨rfl, rfl⟩ := hk
            cases hv
            exact .inr rfl
        · exact .inl hv
      rcases sem_cachePut.mp h with ⟨-, rfl⟩ | ⟨e, -, rfl | rfl⟩
      · exact hput hv
      · exact .inl hv
      · exact hput hv
  | execute ss =>
      exact .inl (hframe (ss.map DbWrite.table) fun s hs => List.mem_map_of_mem hs)
  | _ => exact .inl (hframe [] trivial)

/-- An entry stays unless it is written over, deleted, or dropped by a lookup that misses. -/
theorem sem_cache_kept (h : sem o w x w') (hv : w.cache c k = some v)
    (hput : ∀ v, o ≠ .cachePut c k v) (hdel : o ≠ .cacheDel c k)
    (hmiss : ¬ (o = .cacheGet c k ∧ x ≍ (.ok none : Except ErrorResponse (Option CacheVal)))) :
    w'.cache c k = some v := by
  have hother : ∀ {c' : CacheName} {k' : String} {u : Option CacheVal}, ¬ (c = c' ∧ k = k') →
      (if c = c' ∧ k = k' then u else w.cache c k) = some v := by
    intro c' k' u hne
    rw [if_neg hne, hv]
  cases o with
  | now =>
      obtain ⟨-, rfl⟩ := sem_now.mp h
      exact hv
  | getRand n =>
      obtain ⟨-, -, -, rfl⟩ := sem_getRand.mp h
      exact hv
  | newUuid =>
      obtain ⟨ch, hc⟩ := h
      cases ch with
      | rand s =>
          simp only [Op.run] at hc
          split at hc
          · cases hc
            exact hv
          · cases hc
      | _ => cases hc
  | select t p =>
      obtain ⟨rfl, -⟩ := sem_select.mp h
      exact hv
  | execute ss =>
      rcases sem_execute.mp h with ⟨e, -, rfl⟩ | ⟨db, -, rfl⟩
      · exact hv
      · exact hv
  | cacheGet c' k' =>
      rcases sem_cacheGet.mp h with ⟨-, rfl⟩ | ⟨rfl, rfl⟩ | ⟨e, -, rfl⟩
      · exact hv
      · refine hother ?_
        rintro ⟨rfl, rfl⟩
        exact hmiss ⟨rfl, HEq.rfl⟩
      · exact hv
  | cachePut c' k' v' =>
      have hne : ¬ (c = c' ∧ k = k') := by
        rintro ⟨rfl, rfl⟩
        exact hput v' rfl
      rcases sem_cachePut.mp h with ⟨-, rfl⟩ | ⟨e, -, rfl | rfl⟩
      · exact hother hne
      · exact hv
      · exact hother hne
  | cacheDel c' k' =>
      have hne : ¬ (c = c' ∧ k = k') := by
        rintro ⟨rfl, rfl⟩
        exact hdel rfl
      rcases sem_cacheDel.mp h with ⟨-, rfl⟩ | ⟨e, -, rfl | rfl⟩
      · exact hother hne
      · exact hv
      · exact hother hne
  | finishPasskeyAuthentication cred st =>
      obtain ⟨ch, hc⟩ := h
      cases ch with
      | assertion r =>
          simp only [Op.run] at hc
          split at hc
          · cases hc
            exact hv
          · cases hc
      | refuse msg =>
          cases hc
          exact hv
      | _ => cases hc
  | _ =>
      obtain ⟨ch, hc⟩ := h
      cases ch <;> first | (cases hc; exact hv) | cases hc

/-- **Frame rule of a whole request.** -/
theorem Touches.frame (hp : Touches ts cs p) {r : Except ε α} (h : Exec sem p w r w') :
    Frame ts cs w w' :=
  h.rel hp (Frame.refl ts cs) (fun _ _ _ => Frame.trans) fun _ ho _ _ _ hx => sem_frame ho hx

/-- **Frame rule** for all outcomes of a request that is logged. -/
theorem outcomes_of_touches {Q A : Type} (hp : Touches ts cs p)
    {C : World → Log Q Op Op.Res (Except ε A) → Event Q Op Op.Res (Except ε A) → Prop} {t : ℕ}
    {l : Log Q Op Op.Res (Except ε A)} :
    Outcomes (Pool.logged sem C t) p (w, l) fun _ s =>
      Frame ts cs w s.1 ∧ ∃ evs, Pool.OpsOf t evs ∧ s.2 = evs ++ l := by
  intro r s hx
  obtain ⟨hsem, hevs⟩ := Pool.exec_logged hx
  exact ⟨hp.frame hsem, hevs⟩

/-- **Frame rule** for pre- and postconditions. -/
theorem hoare_of_touches {I P : World → Prop} (hp : Touches ts cs p)
    (h : ∀ w w', Frame ts cs w w' → I w → P w → I w' ∧ P w') : Hoare sem I P p fun _ => P :=
  hoare_of_within hp fun _ ho w _ w' hI hP hx => h w w' (sem_frame ho hx) hI hP

theorem keeps_of_touches {J : World → Prop} (hp : Touches ts cs p)
    (h : ∀ w w', Frame ts cs w w' → J w → J w') : Keeps sem J p fun _ => True :=
  keeps_of_within hp fun _ ho w _ w' hJ hx => h w w' (sem_frame ho hx) hJ

section Touches

variable {ts ts' : List Table} {cs cs' : List (CacheName × Slot)}

theorem Touches.mono (hp : Touches ts cs p) (ht : ts ⊆ ts') (hc : cs ⊆ cs') :
    Touches ts' cs' p := by
  refine Within.mono hp fun o ho => ?_
  cases o with
  | execute ss => exact fun s hs => ht (ho s hs)
  | cachePut c k v => exact hc ho
  | _ => trivial

theorem touches_bind {f : α → Prog Op Op.Res ε β} (hp : Touches ts cs p)
    (hf : ∀ a, Touches ts cs (f a)) : Touches ts cs (p >>= f) :=
  within_bind hp hf

@[simp] theorem touches_ret (a : α) : Touches ts cs (ret a : Prog Op Op.Res ε α) := trivial

@[simp] theorem touches_fail (e : ε) : Touches ts cs (fail e : Prog Op Op.Res ε α) := trivial

@[simp] theorem touches_throwIf (c : Prop) [Decidable c] (e : ε) :
    Touches ts cs (throwIf c e : Prog Op Op.Res ε Unit) := within_throwIf c e

theorem touches_runIf {c : Prop} [Decidable c] {p : Prog Op Op.Res ε Unit}
    (hp : Touches ts cs p) : Touches ts cs (runIf c p) := within_runIf fun _ => hp

@[simp] theorem touches_answer (x : Except ErrorResponse α) : Touches ts cs (answer x) := by
  cases x <;> trivial

@[simp] theorem touches_unwrap (msg : String) (x : Option α) :
    Touches ts cs (unwrap msg x : M ε α) := by
  cases x <;> trivial

@[simp] theorem touches_okOr (e : Fault ε) (x : Option α) : Touches ts cs (okOr e x) := by
  cases x <;> trivial

theorem touches_mapErr {ε' : Type} {f : ε → ε'} {p : M ε α} (hp : Touches ts cs p) :
    Touches ts cs (mapErr f p) := within_mapErr hp

theorem touches_attempt {ε' : Type} {p : M ε α} (hp : Touches ts cs p) :
    Touches ts cs (attempt p : M ε' (Except ε α)) := within_tried hp

theorem touches_ignoreErr {p : M ErrorResponse α} (hp : Touches ts cs p) :
    Touches ts cs (ignoreErr p) := touches_bind (touches_attempt hp) fun _ => touches_ret _

@[simp] theorem touches_now : Touches ts cs (now : M ε Int) :=
  ⟨trivial, fun _ => trivial⟩

@[simp] theorem touches_unixTimestamp : Touches ts cs (unixTimestamp : M ε Int) :=
  touches_bind touches_now fun _ => trivial

@[simp] theorem touches_getRand (n : ℕ) : Touches ts cs (getRand n : M ε String) :=
  ⟨trivial, fun _ => trivial⟩

@[simp] theorem touches_select (t : Table) (p : Row t → Bool) : Touches ts cs (select t p) :=
  ⟨trivial, fun x => touches_answer x⟩

@[simp] theorem touches_fetchOne (t : Table) (p : Row t → Bool) :
    Touches ts cs (fetchOne t p) :=
  touches_bind (touches_select t p) fun _ => touches_okOr _ _

@[simp] theorem touches_fetchOptional (t : Table) (p : Row t → Bool) :
    Touches ts cs (fetchOptional t p) :=
  touches_bind (touches_select t p) fun _ => trivial

theorem touches_execute {ss : List DbWrite} (h : ∀ s ∈ ss, s.table ∈ ts) :
    Touches ts cs (execute ss) := ⟨h, fun x => touches_answer x⟩

@[simp] theorem touches_cacheGet (c : CacheName) (k : String) (as : CacheVal → Option α) :
    Touches ts cs (cacheGet c k as) := by
  refine touches_bind ⟨trivial, fun x => touches_answer x⟩ fun v => ?_
  rcases v with - | v
  · trivial
  · exact touches_bind (touches_okOr _ _) fun _ => trivial

theorem touches_cachePut (hc : (c, v.slot) ∈ cs) (k : String) :
    Touches ts cs (cachePut c k v) := ⟨hc, fun x => touches_answer x⟩

theorem touches_cached (hl : Touches ts cs load) (hw : ∀ a, (c, (wrap a).slot) ∈ cs) :
    Touches ts cs (cached c k as wrap load) := by
  refine touches_bind (touches_cacheGet _ _ _) fun x => ?_
  rcases x with - | a
  · refine touches_bind hl fun a => ?_
    exact touches_bind (touches_cachePut (hw a) _) fun _ => touches_ret _
  · exact touches_ret _

@[simp] theorem touches_cacheDel (c : CacheName) (k : String) : Touches ts cs (cacheDel c k) :=
  ⟨trivial, fun x => touches_answer x⟩

end Touches

/-! ### Caches that a request leaves alone -/

/-- The operation does not look at the cache `c`. -/
def Op.Spares (c : CacheName) : Op → Prop
  | .cacheGet c' _ => c' ≠ c
  | .cachePut c' _ _ => c' ≠ c
  | .cacheDel c' _ => c' ≠ c
  | _ => True

/-- No operation of the program does. -/
def Spares (c : CacheName) (p : Prog Op Op.Res ε α) : Prop := p.Within (Op.Spares c)

section Spares

variable {c' : CacheName}

theorem sem_spares (ho : o.Spares c) {x : o.Res} (h : sem o w x w') :
    w'.cache c = w.cache c := by
  funext k
  refine Option.ext fun v => ⟨fun hv => ?_, fun hv => ?_⟩
  · rcases sem_cache h hv with hv | rfl
    · exact hv
    · exact absurd rfl ho
  · refine sem_cache_kept h hv ?_ ?_ ?_
    · rintro v rfl
      exact ho rfl
    · rintro rfl
      exact ho rfl
    · rintro ⟨rfl, -⟩
      exact ho rfl

theorem Spares.cache (hp : Spares c p) {r : Except ε α} (h : Exec sem p w r w') :
    w'.cache c = w.cache c := by
  have htrans : ∀ w₁ w₂ w₃ : World, w₂.cache c = w₁.cache c → w₃.cache c = w₂.cache c →
      w₃.cache c = w₁.cache c := fun _ _ _ h₁ h₂ => h₂.trans h₁
  exact h.rel (T := fun w w' => w'.cache c = w.cache c) hp (fun _ => rfl) htrans
    fun _ ho _ _ _ hx => sem_spares ho hx

theorem spares_bind {f : α → Prog Op Op.Res ε β} (hp : Spares c p) (hf : ∀ a, Spares c (f a)) :
    Spares c (p >>= f) := within_bind hp hf

theorem spares_answer (x : Except ErrorResponse α) : Spares c (answer x) := by
  cases x <;> trivial

theorem spares_okOr (e : Fault ε) (x : Option α) : Spares c (okOr e x) := by
  cases x <;> trivial

theorem spares_unixTimestamp : Spares c (unixTimestamp : M ε Int) :=
  spares_bind ⟨trivial, fun _ => trivial⟩ fun _ => trivial

theorem spares_select (t : Table) (p : Row t → Bool) : Spares c (select t p) :=
  ⟨trivial, fun x => spares_answer x⟩

theorem spares_fetchOne (t : Table) (p : Row t → Bool) : Spares c (fetchOne t p) :=
  spares_bind (spares_select t p) fun _ => spares_okOr _ _

theorem spares_execute (ss : List DbWrite) : Spares c (execute ss) :=
  ⟨trivial, fun x => spares_answer x⟩

theorem spares_cachePut (h : c' ≠ c) (k : String) (v : CacheVal) :
    Spares c (cachePut c' k v) := ⟨h, fun x => spares_answer x⟩

theorem spares_cacheDel (h : c' ≠ c) (k : String) : Spares c (cacheDel c' k) :=
  ⟨h, fun x => spares_answer x⟩

theorem spares_cacheGet (h : c' ≠ c) (k : String) (as : CacheVal → Option α) :
    Spares c (cacheGet c' k as) := by
  refine spares_bind ⟨h, fun x => spares_answer x⟩ fun v => ?_
  rcases v with - | v
  · trivial
  · exact spares_bind (spares_okOr _ _) fun _ => trivial

theorem spares_cached (h : c' ≠ c) (hl : Spares c load) :
    Spares c (cached c' k as wrap load) := by
  refine spares_bind (spares_cacheGet h k as) fun x => ?_
  rcases x with - | a
  · exact spares_bind hl fun a => spares_bind (spares_cachePut h _ _) fun _ => trivial
  · trivial

theorem spares_attempt {ε' : Type} {p : M ε α} (hp : Spares c p) :
    Spares c (attempt p : M ε' (Except ε α)) := within_tried hp

end Spares

/-! ### What a request deletes from the caches -/

/-- The operation deletes nothing from a cache. -/
def Op.NoDel : Op → Prop
  | .cacheDel _ _ => False
  | _ => True

/-- No operation of the program does. -/
def NoDel (p : Prog Op Op.Res ε α) : Prop := p.Within Op.NoDel

section NoDel

theorem noDel_bind {f : α → Prog Op Op.Res ε β} (hp : NoDel p) (hf : ∀ a, NoDel (f a)) :
    NoDel (p >>= f) := within_bind hp hf

@[simp] theorem noDel_ret (a : α) : NoDel (ret a : Prog Op Op.Res ε α) := trivial

@[simp] theorem noDel_fail (e : ε) : NoDel (fail e : Prog Op Op.Res ε α) := trivial

@[simp] theorem noDel_throwIf (c : Prop) [Decidable c] (e : ε) :
    NoDel (throwIf c e : Prog Op Op.Res ε Unit) := within_throwIf c e

@[simp] theorem noDel_answer (x : Except ErrorResponse α) : NoDel (answer x) := by
  cases x <;> trivial

@[simp] theorem noDel_unwrap (msg : String) (x : Option α) : NoDel (unwrap msg x : M ε α) := by
  cases x <;> trivial

@[simp] theorem noDel_okOr (e : Fault ε) (x : Option α) : NoDel (okOr e x) := by
  cases x <;> trivial

theorem noDel_attempt {ε' : Type} {p : M ε α} (hp : NoDel p) :
    NoDel (attempt p : M ε' (Except ε α)) := within_tried hp

@[simp] theorem noDel_unixTimestamp : NoDel (unixTimestamp : M ε Int) :=
  noDel_bind ⟨trivial, fun _ => trivial⟩ fun _ => trivial

@[simp] theorem noDel_select (t : Table) (p : Row t → Bool) : NoDel (select t p) :=
  ⟨trivial, fun x => noDel_answer x⟩

@[simp] theorem noDel_fetchOptional (t : Table) (p : Row t → Bool) :
    NoDel (fetchOptional t p) :=
  noDel_bind (noDel_select t p) fun _ => trivial

@[simp] theorem noDel_execute (ss : List DbWrite) : NoDel (execute ss) :=
  ⟨trivial, fun x => noDel_answer x⟩

@[simp] theorem noDel_cacheGet (c : CacheName) (k : String) (as : CacheVal → Option α) :
    NoDel (cacheGet c k as) := by
  refine noDel_bind ⟨trivial, fun x => noDel_answer x⟩ fun v => ?_
  rcases v with - | v
  · trivial
  · exact noDel_bind (noDel_okOr _ _) fun _ => trivial

@[simp] theorem noDel_cachePut (c : CacheName) (k : String) (v : CacheVal) :
    NoDel (cachePut c k v) := ⟨trivial, fun x => noDel_answer x⟩

theorem noDel_cached (hl : NoDel load) :
    NoDel (cached c k as wrap load) := by
  refine noDel_bind (noDel_cacheGet _ _ _) fun x => ?_
  rcases x with - | a
  · exact noDel_bind hl fun a => noDel_bind (noDel_cachePut _ _ _) fun _ => noDel_ret _
  · exact noDel_ret _

end NoDel

/-! ### Footprints of what a request has seen -/

section Allows

open Pool

variable {G : List (Seen Op Op.Res) → Seen Op Op.Res → Prop} {tr : List (Seen Op Op.Res)}
  {ts : List Table} {cs : List (CacheName × Slot)}
  {cs' : List (CacheName × Slot)}

/-- Everything that touches only `ts` and `cs` and deletes nothing is allowed. -/
def Allows (G : List (Seen Op Op.Res) → Seen Op Op.Res → Prop) (ts : List Table)
    (cs : List (CacheName × Slot)) : Prop :=
  ∀ o : Op, o.Touches ts cs → o.NoDel → ∀ tr x, G tr ⟨o, x⟩

theorem Allows.now (hG : Allows G ts cs) (ms : Int) :
    G tr ⟨.now, ms⟩ := hG .now trivial trivial tr ms

theorem Allows.mono {ts' : List Table} (hG : Allows G ts' cs') (hts : ts ⊆ ts') (hcs : cs ⊆ cs') :
    Allows G ts cs := by
  intro o ho
  refine hG o ?_
  cases o with
  | execute ss => exact fun s hs => hts (ho s hs)
  | cachePut c k v => exact hcs ho
  | _ => trivial

theorem sees_of_touches {ts' : List Table} {p : M ε α} (hp : Touches ts cs p) (hd : NoDel p)
    (hG : Allows G ts' cs') (hts : ts ⊆ ts') (hcs : cs ⊆ cs') :
    Sees Op.Possible G p (fun _ _ => True) tr :=
  sees_of_within (within_and (hp.mono hts hcs) hd) fun o ho tr x _ => hG o ho.1 ho.2 tr x

/-- A row that is read through a cache was found in the cache or in the table. -/
theorem sees_cachedRow {as : CacheVal → Option (Row t)} {wrap : Row t → CacheVal} {p : Row t → Bool}
    (hG : Allows G [] [])
    (hput : ∀ tr r x, p r = true → (∃ rows, ⟨.select t p, .ok (r :: rows)⟩ ∈ tr) →
      G tr ⟨.cachePut c k (wrap r), x⟩) :
    Sees Op.Possible G (cached c k as wrap (fetchOne t p)) (fun r tr' =>
      (∃ v, ⟨.cacheGet c k, .ok (some v)⟩ ∈ tr' ∧ as v = some r) ∨
      p r = true ∧ ∃ rows, ⟨.select t p, .ok (r :: rows)⟩ ∈ tr') tr := by
  refine sees_mono (sees_cached (F := fun r tr' => p r = true ∧
    ∃ rows, ⟨.select t p, .ok (r :: rows)⟩ ∈ tr') (fun x => hG (.cacheGet c k) trivial trivial tr x)
    (fun tr₁ _ => ?_) fun tr₁ r x hr => hput tr₁ r x hr.1 hr.2) fun r tr₁ _ h => ?_
  · refine sees_mono (sees_fetchOne fun x => hG (.select t p) trivial trivial tr₁ x) fun r tr₂ _ h => ?_
    obtain ⟨⟨rows, htr₂⟩, hr⟩ := h
    refine ⟨hr, rows, ?_⟩
    rw [htr₂]
    exact List.mem_cons_self
  · rcases h with ⟨v, htr₁, hv⟩ | ⟨tr₂, ⟨hr, rows, hmem⟩, htr₁⟩
    · refine .inl ⟨v, ?_, hv⟩
      rw [htr₁]
      exact List.mem_cons_self
    · refine .inr ⟨hr, rows, ?_⟩
      rw [htr₁]
      exact List.mem_cons_of_mem _ hmem

end Allows

end Rauthy
