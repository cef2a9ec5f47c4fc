/-
Rauthy/Pagination.lean

`find_paginated` of the users and of the sessions, and the continuation token that is
handed out with a page (`rauthy-models/src/entity/continuation_token.rs`).

The token holds the id and the timestamp of the last row of a page, and the next page is
taken from the rows with a timestamp that is not earlier, less that row.  A row of the
same timestamp that comes before it is served again.

Main result: `paginated_in_order_iff`, the walk through the pages visits every row once iff
every row that ends a page has a timestamp other than the row before it.
-/
import Rauthy.Lib.Keyset
import Rauthy.Sessions
import Rauthy.Users

namespace Rauthy

open Prog

/-! ### Continuation tokens -/

/-- The digits of `i64::from_str`, from the most significant one; `sign` is 1 or -1. -/
def i64Digits (sign : Int) : Int → List Char → Except String Int
  | acc, [] => .ok acc
  | acc, c :: cs =>
      if c.isDigit then
        let acc' := acc * 10 + sign * (c.toNat - '0'.toNat : ℕ)
        if acc' > 2 ^ 63 - 1 then .error "PosOverflow"
        else if acc' < -2 ^ 63 then .error "NegOverflow"
        else i64Digits sign acc' cs
      else .error "InvalidDigit"

/-- `i64::from_str`, with the kind of its error -/
def i64FromStr (s : String) : Except String Int :=
  match s.toList with
  | [] => .error "Empty"
  | ['+'] => .error "InvalidDigit"
  | ['-'] => .error "InvalidDigit"
  | '+' :: cs => i64Digits 1 0 cs
  | '-' :: cs => i64Digits (-1) 0 cs
  | cs => i64Digits 1 0 cs

structure ContinuationToken where
  id : String
  ts : Int
  deriving DecidableEq, Inhabited

namespace ContinuationToken

/-- `Display` -/
def fmt (slf : ContinuationToken) : String := toString slf.ts ++ slf.id

/-- `TryFrom<&str>` -/
def tryFrom (value : String) : Except (Fault ErrorResponse) ContinuationToken :=
  if Text.len value < 16 then .error (err .badRequest "Invalid continuation_token")
  else
    match Text.sliceTo value 10 with
    | none => .error (.panic "failed to slice string")
    | some ts =>
        let id := String.ofList (value.toList.drop ts.toList.length)
        match i64FromStr ts with
        | .error kind => .error (err .badRequest
            ("timestamp str cannot be parsed into i64: ParseIntError \x7b kind: " ++ kind ++
              " \x7d"))
        | .ok ts => .ok ⟨id, ts⟩

/-- A timestamp of ten digits and an id of six bytes or more. -/
structure Readable (slf : ContinuationToken) : Prop where
  ts : 1000000000 ≤ slf.ts ∧ slf.ts < 10000000000
  id : 6 ≤ Text.len slf.id

theorem takeBytes_append {xs ys : List Char} (h : ∀ c ∈ xs, c.utf8Size = 1) :
    Text.takeBytes xs.length (xs ++ ys) = some xs := by
  induction xs with
  | nil => simp [Text.takeBytes]
  | cons c xs ih =>
      have hc := h c List.mem_cons_self
      have hxs := ih fun c' hc' => h c' (List.mem_cons_of_mem _ hc')
      simp only [List.length_cons, List.cons_append, Text.takeBytes, hc]
      rw [if_pos (by omega), show xs.length + 1 - 1 = xs.length from rfl, hxs]
      rfl

theorem utf8Size_of_isDigit {c : Char} (h : c.isDigit = true) : c.utf8Size = 1 := by
  rw [Char.utf8Size_eq_one_iff]
  simp only [Char.isDigit, Bool.and_eq_true, decide_eq_true_eq] at h
  exact UInt32.le_trans h.2 (by decide)

/-- Digits that make up a number below the bound are read as this number. -/
theorem i64Digits_eq {cs : List Char} (hcs : ∀ c ∈ cs, c.isDigit = true) (acc : ℕ)
    (hmax : Nat.ofDigitChars 10 cs acc < 2 ^ 63) :
    i64Digits 1 acc cs = .ok (Nat.ofDigitChars 10 cs acc) := by
  induction cs generalizing acc with
  | nil => rfl
  | cons c cs ih =>
      have hrest : ∀ c' ∈ cs, c'.isDigit = true := fun c' hc' => hcs c' (List.mem_cons_of_mem _ hc')
      rw [Nat.ofDigitChars_cons] at hmax ⊢
      have hle : 10 * acc + (c.toNat - '0'.toNat) < 2 ^ 63 := by
        refine lt_of_le_of_lt ?_ hmax
        rw [Nat.ofDigitChars_eq_ofDigitChars_zero]
        have hpos : 1 ≤ 10 ^ cs.length := Nat.one_le_pow _ _ (by decide)
        exact (Nat.le_mul_of_pos_left _ hpos).trans (Nat.le_add_right _ _)
      have hstep : ((acc : Int) * 10 + 1 * ((c.toNat - '0'.toNat : ℕ) : Int)) =
          ((10 * acc + (c.toNat - '0'.toNat) : ℕ) : Int) := by
        omega
      simp only [i64Digits, hcs c List.mem_cons_self, if_true, hstep]
      rw [if_neg (by omega), if_neg (by omega)]
      exact ih hrest _ hmax

theorem toList_toString (n : ℕ) : (toString (n : Int)).toList = Nat.toDigits 10 n := by
  rw [Int.toString_eq_repr, Int.repr_eq_if, if_pos (Int.natCast_nonneg n), Int.toNat_natCast]
  exact Nat.toList_repr

theorem length_toDigits {n : ℕ} (h : 1000000000 ≤ n) (h' : n < 10000000000) :
    (Nat.toDigits 10 n).length = 10 := by
  have hle : (Nat.toDigits 10 n).length ≤ 10 :=
    (Nat.length_toDigits_le_iff (by decide) (by decide)).mpr h'
  have hgt : ¬ (Nat.toDigits 10 n).length ≤ 9 := by
    rw [Nat.length_toDigits_le_iff (by decide) (by decide)]
    omega
  omega

theorem i64FromStr_toString {n : ℕ} (h : n < 2 ^ 63) : i64FromStr (toString (n : Int)) = .ok n := by
  have hdigits : ∀ c ∈ Nat.toDigits 10 n, c.isDigit = true := fun c hc =>
    Nat.isDigit_of_mem_toDigits (by decide) (by decide) hc
  have hval : i64Digits 1 (0 : ℕ) (Nat.toDigits 10 n) = .ok (n : Int) := by
    rw [i64Digits_eq hdigits 0 (by rwa [Nat.ofDigitChars_ten_toDigits]),
      Nat.ofDigitChars_ten_toDigits]
  unfold i64FromStr
  rw [toList_toString]
  rcases hl : Nat.toDigits 10 n with - | ⟨c, cs⟩
  · exact absurd hl Nat.toDigits_ne_nil
  · rw [hl] at hdigits hval
    have hc : c.isDigit = true := hdigits c List.mem_cons_self
    have hplus : c ≠ '+' := by rintro rfl; exact absurd hc (by decide)
    have hminus : c ≠ '-' := by rintro rfl; exact absurd hc (by decide)
    split
    · rename_i he; cases he
    · rename_i he; cases he; exact absurd rfl hplus
    · rename_i he; cases he; exact absurd rfl hminus
    · rename_i he; cases he; exact absurd rfl hplus
    · rename_i he; cases he; exact absurd rfl hminus
    · exact hval

theorem tryFrom_fmt {t : ContinuationToken} (h : t.Readable) : tryFrom t.fmt = .ok t := by
  obtain ⟨id, ts⟩ := t
  obtain ⟨⟨hlow, hhigh⟩, hid⟩ := h
  dsimp only at hlow hhigh hid
  obtain ⟨n, rfl⟩ := Int.eq_ofNat_of_zero_le (by omega : (0 : Int) ≤ ts)
  have hlen := length_toDigits (n := n) (by omega) (by omega)
  have hascii : ∀ c ∈ (toString (n : Int)).toList, c.utf8Size = 1 := by
    rw [toList_toString]
    exact fun c hc =>
      utf8Size_of_isDigit (Nat.isDigit_of_mem_toDigits (by decide) (by decide) hc)
  have hten : (toString (n : Int)).toList.length = 10 := by
    rw [toList_toString]
    exact hlen
  have hbytes : Text.len (fmt ⟨id, n⟩) = 10 + Text.len id := by
    have h₁ := Text.len_of_ascii hascii
    unfold fmt Text.len at *
    rw [String.utf8ByteSize_append, h₁, hten]
  have hslice : Text.sliceTo (fmt ⟨id, n⟩) 10 = some (toString (n : Int)) := by
    unfold Text.sliceTo fmt
    rw [String.toList_append, ← hten, takeBytes_append hascii]
    exact congrArg some (String.ofList_toList)
  have hrest : String.ofList ((fmt ⟨id, n⟩).toList.drop (toString (n : Int)).toList.length) = id := by
    unfold fmt
    rw [String.toList_append, List.drop_left, String.ofList_toList]
  unfold tryFrom
  rw [if_neg (by omega), hslice]
  simp only [i64FromStr_toString (show n < 2 ^ 63 by omega), hrest]

/-- What a handler does with the token of the query. -/
def ofQuery : Option String → Except (Fault ErrorResponse) (Option ContinuationToken)
  | some token => (tryFrom token).map some
  | none => .ok none

end ContinuationToken

/-! ### Pages -/

/-- `LIMIT $1 OFFSET $2` -/
def limit {α : Type} (pageSize offset : ℕ) (rows : List α) : List α := (rows.drop offset).take pageSize

structure UserResponseSimple where
  id : String
  email : String
  deriving DecidableEq, Inhabited

/-- `From<User>` -/
def User.simple (u : User) : UserResponseSimple := ⟨u.id, u.email⟩

namespace User

/-- `ORDER BY created_at ASC` -/
def byCreatedAtAsc (rows : List User) : List User :=
  rows.insertionSort fun a b => a.createdAt ≤ b.createdAt

/-- `ORDER BY created_at DESC` -/
def byCreatedAtDesc (rows : List User) : List User :=
  rows.insertionSort fun a b => b.createdAt ≤ a.createdAt

def findPaginated (continuationToken : Option ContinuationToken) (pageSize offset : ℕ)
    (backwards : Bool) :
    M ErrorResponse (List UserResponseSimple × Option ContinuationToken) := do
  let rows ← match continuationToken with
    | some token =>
        if backwards then do
          let rows ← select .users fun u => decide (u.createdAt ≤ token.ts) && !decide (u.id = token.id)
          pure (limit pageSize (offset + pageSize) (byCreatedAtDesc rows)).reverse
        else do
          let rows ← select .users fun u => decide (token.ts ≤ u.createdAt) && !decide (u.id = token.id)
          pure (limit pageSize offset (byCreatedAtAsc rows))
    | none =>
        if backwards then do
          let rows ← select .users fun _ => true
          pure (limit pageSize offset (byCreatedAtDesc rows)).reverse
        else do
          let rows ← select .users fun _ => true
          pure (limit pageSize offset (byCreatedAtAsc rows))
  let res := rows.map simple
  let latestTs := (rows.getLast?.map createdAt).getD 0
  let token : Option ContinuationToken := res.getLast?.map fun entry => ⟨entry.id, latestTs⟩
  return (res, token)

end User

namespace Session

/-- `ORDER BY exp ASC` -/
def byExpAsc (rows : List Session) : List Session := rows.insertionSort fun a b => a.exp ≤ b.exp

/-- `ORDER BY exp DESC` -/
def byExpDesc (rows : List Session) : List Session := rows.insertionSort fun a b => b.exp ≤ a.exp

def findPaginated (continuationToken : Option ContinuationToken) (pageSize offset : ℕ)
    (backwards : Bool) : M ErrorResponse (List Session × Option ContinuationToken) := do
  let res ← match continuationToken with
    | some token =>
        if backwards then do
          let rows ← select .sessions fun s => decide (token.ts ≤ s.exp) && !decide (s.id = token.id)
          pure (limit pageSize (offset + pageSize) (byExpAsc rows)).reverse
        else do
          let rows ← select .sessions fun s => decide (s.exp ≤ token.ts) && !decide (s.id = token.id)
          pure (limit pageSize offset (byExpDesc rows))
    | none =>
        if backwards then do
          let rows ← select .sessions fun _ => true
          pure (limit pageSize offset (byExpAsc rows)).reverse
        else do
          let rows ← select .sessions fun _ => true
          pure (limit pageSize offset (byExpDesc rows))
  let latestTs := (res.getLast?.map exp).getD 0
  let token : Option ContinuationToken := res.getLast?.map fun entry => ⟨entry.id, latestTs⟩
  return (res, token)

end Session

/-! ### The answers -/

section Answers

variable {α β : Type} {p k : ℕ} {w w' : World}
  {tok' : Option ContinuationToken}

/-- The key of the users, as a token holds it. -/
def User.token (t : String × Int) : ContinuationToken := ⟨t.1, t.2⟩

/-- The key of the sessions; the latest expiry comes first. -/
def Session.key (s : Session) : Intᵒᵈ := OrderDual.toDual s.exp

def Session.token (t : String × Intᵒᵈ) : ContinuationToken := ⟨t.1, OrderDual.ofDual t.2⟩

/-- A page as it is answered. -/
def User.pageAnswer (rows : List User) : List UserResponseSimple × Option ContinuationToken :=
  (rows.map simple, (rows.map simple).getLast?.map fun entry =>
    ⟨entry.id, (rows.getLast?.map createdAt).getD 0⟩)

def Session.pageAnswer (rows : List Session) : List Session × Option ContinuationToken :=
  (rows, rows.getLast?.map fun entry => ⟨entry.id, (rows.getLast?.map exp).getD 0⟩)

theorem User.pageAnswer_eq (rows : List User) : pageAnswer rows =
    (rows.map simple, (Keyset.token User.id createdAt rows).map User.token) := by
  rcases List.eq_nil_or_concat' rows with rfl | ⟨l, u, rfl⟩
  · rfl
  · simp [pageAnswer, Keyset.token, simple, User.token]

theorem Session.pageAnswer_eq (rows : List Session) : pageAnswer rows =
    (rows, (Keyset.token Session.id key rows).map Session.token) := by
  rcases List.eq_nil_or_concat' rows with rfl | ⟨l, s, rfl⟩
  · rfl
  · simp [pageAnswer, Keyset.token, key, Session.token]

theorem exec_page {t : Table} {q : Row t → Bool} {f : List (Row t) → α} {a : α} :
    Exec sem (Bind.bind (select t q) fun rows => (ret (f rows) : M ErrorResponse α)) w (.ok a) w' ↔
      w' = w ∧ a = f ((w.db t).filter q) := by
  simp only [exec_bind_ok, exec_select, exec_ret, Except.ok.injEq]
  constructor
  · rintro ⟨_, _, ⟨rfl, rfl⟩, rfl, rfl⟩
    exact ⟨rfl, rfl⟩
  · rintro ⟨rfl, rfl⟩
    exact ⟨_, _, ⟨rfl, rfl⟩, rfl, rfl⟩

theorem User.findPaginated_eq (tok : Option (String × Int)) : ∃ q : User → Bool,
    (∀ rows, rows.filter q = Keyset.after User.id createdAt tok rows) ∧
    findPaginated (tok.map User.token) p 0 false =
      Bind.bind (select .users q) fun rows => ret (pageAnswer (limit p 0 (byCreatedAtAsc rows))) := by
  rcases tok with - | ⟨i, x⟩
  · exact ⟨fun _ => true, fun _ => List.filter_true _, by simp [findPaginated, pageAnswer]⟩
  · exact ⟨_, fun _ => rfl, by simp [findPaginated, pageAnswer, User.token]⟩

theorem Session.findPaginated_eq (tok : Option (String × Intᵒᵈ)) : ∃ q : Session → Bool,
    (∀ rows, rows.filter q = Keyset.after Session.id key tok rows) ∧
    findPaginated (tok.map Session.token) p 0 false =
      Bind.bind (select .sessions q) fun rows => ret (pageAnswer (limit p 0 (byExpDesc rows))) := by
  rcases tok with - | ⟨i, x⟩
  · exact ⟨fun _ => true, fun _ => List.filter_true _, by simp [findPaginated, pageAnswer]⟩
  · refine ⟨fun s => decide (s.exp ≤ OrderDual.ofDual x) && !decide (s.id = i), fun _ => rfl, ?_⟩
    simp [findPaginated, pageAnswer, Session.token]

/-- A request is answered with the rows behind its token. -/
theorem User.exec_findPaginated {tok : Option (String × Int)} {res : List UserResponseSimple}
    {tables : ℕ → List User} (ht : tables k = w.db .users) :
    Exec sem (User.findPaginated (tok.map User.token) p 0 false) w (.ok (res, tok')) w' ↔
      w' = w ∧ ∃ rows t', Keyset.Find User.id User.createdAt tables p k tok rows t' ∧
        res = rows.map User.simple ∧ tok' = t'.map User.token := by
  obtain ⟨q, hq, heq⟩ := User.findPaginated_eq (p := p) tok
  have hpage : limit p 0 (byCreatedAtAsc ((w.db .users).filter q)) =
      Keyset.page User.id User.createdAt p tok (tables k) := by
    rw [hq, ht]
    rfl
  rw [heq, exec_page, hpage, User.pageAnswer_eq, Prod.mk.injEq]
  constructor
  · rintro ⟨rfl, rfl, rfl⟩
    exact ⟨rfl, _, _, ⟨rfl, rfl⟩, rfl, rfl⟩
  · rintro ⟨rfl, _, _, ⟨rfl, rfl⟩, rfl, rfl⟩
    exact ⟨rfl, rfl, rfl⟩

theorem Session.exec_findPaginated {tok : Option (String × Intᵒᵈ)} {res : List Session}
    {tables : ℕ → List Session} (ht : tables k = w.db .sessions) :
    Exec sem (Session.findPaginated (tok.map Session.token) p 0 false) w (.ok (res, tok')) w' ↔
      w' = w ∧ ∃ rows t', Keyset.Find Session.id Session.key tables p k tok rows t' ∧
        res = rows.map (fun s => s) ∧ tok' = t'.map Session.token := by
  obtain ⟨q, hq, heq⟩ := Session.findPaginated_eq (p := p) tok
  have hpage : limit p 0 (byExpDesc ((w.db .sessions).filter q)) =
      Keyset.page Session.id Session.key p tok (tables k) := by
    rw [hq, ht]
    rfl
  rw [heq, exec_page, hpage, Session.pageAnswer_eq, Prod.mk.injEq]
  constructor
  · rintro ⟨rfl, rfl, rfl⟩
    exact ⟨rfl, _, _, ⟨rfl, rfl⟩, (List.map_id' _).symm, rfl⟩
  · rintro ⟨rfl, _, _, ⟨rfl, rfl⟩, rfl, rfl⟩
    exact ⟨rfl, List.map_id' _, rfl⟩

end Answers

/-! ### Walks through the pages -/

/-- Request `k` of a walk is answered in the world `ws k`. -/
def User.Asked (ws : ℕ → World) (p k : ℕ) (tok : Option ContinuationToken)
    (res : List UserResponseSimple) (tok' : Option ContinuationToken) : Prop :=
  ∃ w', Exec sem (User.findPaginated tok p 0 false) (ws k) (.ok (res, tok')) w'

def Session.Asked (ws : ℕ → World) (p k : ℕ) (tok : Option ContinuationToken)
    (res : List Session) (tok' : Option ContinuationToken) : Prop :=
  ∃ w', Exec sem (Session.findPaginated tok p 0 false) (ws k) (.ok (res, tok')) w'

/-- The same requests with tokens as text: from the header of one answer to the query of the
next request. -/
def AsText {β : Type}
    (ask : ℕ → Option ContinuationToken → List β → Option ContinuationToken → Prop) (k : ℕ)
    (query : Option String) (res : List β) (header : Option String) : Prop :=
  ∃ tok tok', ContinuationToken.ofQuery query = .ok tok ∧ ask k tok res tok' ∧
    header = tok'.map ContinuationToken.fmt

/-- The walk from the first page on ends, and it has visited every row once, in order. -/
def Visits {T β ρ κ : Type} [LinearOrder κ] (ask : ℕ → Option T → List β → Option T → Prop) (key : ρ → κ)
    (view : ρ → β) (rows : List ρ) : Prop :=
  ∃ l, Walk ask 0 none (l.map view) ∧ Keyset.InOrder key rows l

/-- The users and the sessions stay as they are during a walk.  No request relies on the order
in which the database has the rows. -/
structure Frozen (ws : ℕ → World) : Prop where
  userIds : UniqueKey User.id ((ws 0).db .users)
  users : ∀ k, ((ws k).db .users).Perm ((ws 0).db .users)
  sessionIds : UniqueKey Session.id ((ws 0).db .sessions)
  sessions : ∀ k, ((ws k).db .sessions).Perm ((ws 0).db .sessions)

section Walks

variable {ws : ℕ → World} {p : ℕ}

theorem User.asked_iff (k : ℕ) (tok : Option (String × Int)) (res : List UserResponseSimple)
    (tok' : Option ContinuationToken) :
    User.Asked ws p k (tok.map User.token) res tok' ↔
      ∃ rows t', Keyset.Find User.id User.createdAt (fun k => (ws k).db .users) p k tok rows t' ∧
        res = rows.map User.simple ∧ tok' = t'.map User.token := by
  constructor
  · rintro ⟨w', h⟩
    exact ((User.exec_findPaginated rfl).mp h).2
  · intro h
    exact ⟨ws k, (User.exec_findPaginated rfl).mpr ⟨rfl, h⟩⟩

theorem Session.asked_iff (k : ℕ) (tok : Option (String × Intᵒᵈ)) (res : List Session)
    (tok' : Option ContinuationToken) :
    Session.Asked ws p k (tok.map Session.token) res tok' ↔
      ∃ rows t', Keyset.Find Session.id Session.key (fun k => (ws k).db .sessions) p k tok rows t' ∧
        res = rows.map (fun s => s) ∧ tok' = t'.map Session.token := by
  constructor
  · rintro ⟨w', h⟩
    exact ((Session.exec_findPaginated rfl).mp h).2
  · intro h
    exact ⟨ws k, (Session.exec_findPaginated rfl).mpr ⟨rfl, h⟩⟩

theorem asText_iff {κ ρ β : Type} {ask : ℕ → Option ContinuationToken → List β →
      Option ContinuationToken → Prop} {find : ℕ → Option (String × κ) → List ρ →
      Option (String × κ) → Prop} {token : String × κ → ContinuationToken} {view : ρ → β}
    (hask : ∀ k tok res tok', ask k (tok.map token) res tok' ↔
      ∃ rows t', find k tok rows t' ∧ res = rows.map view ∧ tok' = t'.map token)
    (k : ℕ) (tok : Option (String × κ)) (hgood : ∀ t ∈ tok, (token t).Readable) (res : List β)
    (header : Option String) :
    AsText ask k (tok.map fun t => (token t).fmt) res header ↔
      ∃ rows t', find k tok rows t' ∧ res = rows.map view ∧
        header = t'.map fun t => (token t).fmt := by
  have hread : ContinuationToken.ofQuery (tok.map fun t => (token t).fmt) = .ok (tok.map token) := by
    rcases tok with - | t
    · rfl
    · show (ContinuationToken.tryFrom (token t).fmt).map some = _
      rw [ContinuationToken.tryFrom_fmt (hgood t rfl)]
      rfl
  constructor
  · rintro ⟨tok₁, tok₂, hq, hfind, rfl⟩
    rw [hread] at hq
    cases hq
    obtain ⟨rows, t', hf, hres, rfl⟩ := (hask k tok res tok₂).mp hfind
    refine ⟨rows, t', hf, hres, ?_⟩
    rw [Option.map_map]
    rfl
  · rintro ⟨rows, t', hf, hres, rfl⟩
    refine ⟨_, _, hread, (hask k tok res _).mpr ⟨rows, t', hf, hres, rfl⟩, ?_⟩
    rw [Option.map_map]
    rfl

theorem good_of_find {ρ κ : Type} [LinearOrder κ] {idOf : ρ → String} {key : ρ → κ} {tables : ℕ → List ρ}
    {rows : List ρ} {token : String × κ → ContinuationToken} (ht : ∀ k, (tables k).Perm rows)
    (h : ∀ r ∈ rows, (token (idOf r, key r)).Readable) {k : ℕ} {tok tok' : Option (String × κ)}
    {items : List ρ} (hfind : Keyset.Find idOf key tables p k tok items tok') :
    ∀ t ∈ tok', (token t).Readable := by
  obtain ⟨rfl, rfl⟩ := hfind
  intro t hmem
  obtain ⟨r, hr, rfl⟩ := Option.mem_map.mp hmem
  exact h r ((ht k).mem_iff.mp (Keyset.page_subset r (List.mem_of_getLast? hr)))

theorem User.visits_iff (hp : 1 ≤ p) (h : Frozen ws) :
    Visits (User.Asked ws p) User.createdAt User.simple ((ws 0).db .users) ↔
      Keyset.StrictBorders p
        ((Keyset.sorted User.createdAt ((ws 0).db .users)).map User.createdAt) := by
  refine Keyset.visits_through_iff (fun _ => True) hp h.userIds h.users
    (fun k tok _ => User.asked_iff k tok) (fun _ _ => trivial) trivial ?_
  intro a b he
  exact congrArg UserResponseSimple.id he

theorem Session.visits_iff (hp : 1 ≤ p) (h : Frozen ws) :
    Visits (Session.Asked ws p) Session.key (fun s => s) ((ws 0).db .sessions) ↔
      Keyset.StrictBorders p
        ((Keyset.sorted Session.key ((ws 0).db .sessions)).map Session.key) := by
  refine Keyset.visits_through_iff (fun _ => True) hp h.sessionIds h.sessions
    (fun k tok _ => Session.asked_iff k tok) (fun _ _ => trivial) trivial ?_
  intro a b he
  exact congrArg Session.id he

theorem User.visits_text_iff (hp : 1 ≤ p) (h : Frozen ws)
    (hread : ∀ u ∈ (ws 0).db .users, (User.token (u.id, u.createdAt)).Readable) :
    Visits (AsText (User.Asked ws p)) User.createdAt User.simple ((ws 0).db .users) ↔
      Keyset.StrictBorders p
        ((Keyset.sorted User.createdAt ((ws 0).db .users)).map User.createdAt) := by
  refine Keyset.visits_through_iff (fun tok => ∀ t ∈ tok, (User.token t).Readable) hp h.userIds
    h.users (asText_iff User.asked_iff) (fun _ hfind => good_of_find h.users hread hfind) ?_ ?_
  · intro t ht
    cases ht
  · intro a b he
    exact congrArg UserResponseSimple.id he

theorem Session.visits_text_iff (hp : 1 ≤ p) (h : Frozen ws)
    (hread : ∀ s ∈ (ws 0).db .sessions, (Session.token (s.id, s.key)).Readable) :
    Visits (AsText (Session.Asked ws p)) Session.key (fun s => s) ((ws 0).db .sessions) ↔
      Keyset.StrictBorders p
        ((Keyset.sorted Session.key ((ws 0).db .sessions)).map Session.key) := by
  refine Keyset.visits_through_iff (fun tok => ∀ t ∈ tok, (Session.token t).Readable) hp
    h.sessionIds h.sessions (asText_iff Session.asked_iff)
    (fun _ hfind => good_of_find h.sessions hread hfind) ?_ ?_
  · intro t ht
    cases ht
  · intro a b he
    exact congrArg Session.id he

/-- **The pages are complete iff their borders are strict.**  The walk through the pages of the
users ends and visits every user once, in the order of creation, iff each user who ends a page
was created later than the one before; and the same for the sessions and their expiry.  Whether
the tokens are handed on as they are or as text makes no difference, if they can be read. -/
theorem paginated_in_order_iff (hp : 1 ≤ p) (h : Frozen ws) :
    (Visits (User.Asked ws p) User.createdAt User.simple ((ws 0).db .users) ↔
      Keyset.StrictBorders p
        ((Keyset.sorted User.createdAt ((ws 0).db .users)).map User.createdAt)) ∧
    (Visits (Session.Asked ws p) Session.key (fun s => s) ((ws 0).db .sessions) ↔
      Keyset.StrictBorders p
        ((Keyset.sorted Session.key ((ws 0).db .sessions)).map Session.key)) ∧
    ((∀ u ∈ (ws 0).db .users, (User.token (u.id, u.createdAt)).Readable) →
      (Visits (AsText (User.Asked ws p)) User.createdAt User.simple ((ws 0).db .users) ↔
        Visits (User.Asked ws p) User.createdAt User.simple ((ws 0).db .users))) ∧
    ((∀ s ∈ (ws 0).db .sessions, (Session.token (s.id, s.key)).Readable) →
      (Visits (AsText (Session.Asked ws p)) Session.key (fun s => s) ((ws 0).db .sessions) ↔
        Visits (Session.Asked ws p) Session.key (fun s => s) ((ws 0).db .sessions))) :=
  ⟨User.visits_iff hp h, Session.visits_iff hp h,
    fun hread => (User.visits_text_iff hp h hread).trans (User.visits_iff hp h).symm,
    fun hread => (Session.visits_text_iff hp h hread).trans (Session.visits_iff hp h).symm⟩

end Walks

/-! ### Two users of one second -/

/-- Alice and Bob have been created in the same second. -/
def importedUsers : List User :=
  [{ sampleUser with createdAt := 1700000000 },
    { sampleUser with id := "bob_id", email := "bob@localhost", createdAt := 1700000000 }]

def importedWorld (users : List User) : World where
  clock := 0
  issued := []
  db
    | .users => users
    | _ => []
  cache _ _ := none

theorem frozen_importedWorld {users : List User} (h : UniqueKey User.id users) :
    Frozen fun _ => importedWorld users where
  userIds := h
  users _ := List.Perm.refl _
  sessionIds := List.nodup_nil
  sessions _ := List.Perm.refl _

/-- Pages of one user each: after Bob comes Alice again. -/
theorem imported_users_again : Frozen (fun _ => importedWorld importedUsers) ∧
    ¬ Visits (User.Asked (fun _ => importedWorld importedUsers) 1) User.createdAt User.simple
      importedUsers := by
  have hfrozen : Frozen fun _ => importedWorld importedUsers :=
    frozen_importedWorld (by unfold UniqueKey; decide)
  refine ⟨hfrozen, fun h => ?_⟩
  have hstrict := (User.visits_iff (le_refl 1) hfrozen).mp h
  exact absurd (hstrict [] 1700000000 1700000000 [] (by decide) (.inr rfl)) (lt_irrefl _)

/-- Bob comes one second later. -/
theorem paginated_in_order_iff_later :
    Visits (User.Asked (fun _ => importedWorld
        [sampleUser, { sampleUser with id := "bob_id", createdAt := sampleUser.createdAt + 1 }]) 1)
      User.createdAt User.simple
      [sampleUser, { sampleUser with id := "bob_id", createdAt := sampleUser.createdAt + 1 }] := by
  refine (paginated_in_order_iff (le_refl 1)
    (frozen_importedWorld (by unfold UniqueKey; decide))).1.mpr ?_
  intro a x y b he _
  have hkeys : a ++ x :: y :: b = [sampleUser.createdAt, sampleUser.createdAt + 1] := by
    rw [← he]
    decide
  rcases a with - | ⟨_, _ | ⟨_, a⟩⟩
  · cases hkeys
    exact Int.lt_succ _
  · simp at hkeys
  · simp at hkeys

end Rauthy
