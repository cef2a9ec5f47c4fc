/-
Rauthy/Backups.lean

The clean-up at the end of `backup_db` (`rauthy-models/src/migration/mod.rs`): every entry of
`data/backup/` whose name ends in a timestamp that is older than the retention is removed.  The
last ten bytes of each name are cut off and parsed, and times are computed with 32 bits.

Arithmetic that overflows panics in a build with overflow checks and wraps in one without; the
model has both, and notes an overflow in either.

Main result: `cleanup_iff`.  The loop ends without a panic or an overflow and removes what is out
of date exactly if the retention fits, every name can be cut, no timestamp is ahead of the clock,
and the clock in 32 bits gives the same ages.
-/
import Rauthy.Monad

namespace Rauthy

namespace Backup

/-! ### Numbers -/

/-- The value of decimal digits. -/
def decimal (ds : List Char) : ℕ := ds.foldl (fun n c => n * 10 + (c.toNat - '0'.toNat)) 0

/-- The number that the digits are, if there are some and it fits. -/
def digitsU32 (ds : List Char) : Option ℕ :=
  if ds ≠ [] ∧ ds.all Char.isDigit = true ∧ decimal ds < 2 ^ 32 then some (decimal ds) else none

/-- `parse::<u32>()`: a leading `+` is accepted. -/
def parseU32 (s : String) : Option ℕ :=
  match s.toList with
  | '+' :: rest => digitsU32 rest
  | ds => digitsU32 ds

/-- Whether arithmetic is checked for overflows. -/
inductive Build where
  | debug
  | release
  deriving DecidableEq

/-- The result of an operation on `u32`, and whether it has wrapped. -/
def u32 (b : Build) (n : Int) : Except String (ℕ × Bool) :=
  if 0 ≤ n ∧ n < 2 ^ 32 then .ok (n.toNat, false)
  else match b with
    | .debug => .error "attempt to compute with overflow"
    | .release => .ok ((n % 2 ^ 32).toNat, true)

/-- `now as u32` -/
def asU32 (now : Int) : ℕ := (now % 2 ^ 32).toNat

/-! ### The loop -/

def tsLow : ℕ := 1670000000

def tsHigh : ℕ := 3000000000

/-- An entry of the directory. -/
structure Entry where
  /-- what `to_str` makes of its name: none if that is not UTF-8 -/
  name : Option String
  /-- a directory, or a link: not a plain file -/
  isDir : Bool
  deriving DecidableEq

/-- The entries that have been removed so far, and whether a number has wrapped. -/
structure Cleanup where
  removed : List Entry
  overflow : Bool
  deriving DecidableEq

/-- `remove_dir_all`: it fails for a plain file, and the error is ignored. -/
def removeDirAll (e : Entry) : List Entry := if e.isDir = true then [e] else []

/-- One round of the loop. -/
def cleanEntry (b : Build) (tsNow maxDiff : ℕ) (c : Cleanup) (e : Entry) :
    Except String Cleanup :=
  match e.name with
  | none => .error "called Option::unwrap() on a None value"
  | some s =>
      -- `s.split_at(s.len() - 10)` panics in every build if there are no ten bytes to cut off
      match Text.lastBytes s 10 with
      | none => .error "failed to slice string"
      | some stripped =>
          match parseU32 stripped with
          | none => .ok c
          | some ts =>
              if tsLow < ts ∧ ts < tsHigh then
                match u32 b (tsNow - ts) with
                | .error e => .error e
                | .ok (diff, wrapped) => .ok
                    { removed := c.removed ++ (if maxDiff < diff then removeDirAll e else [])
                      overflow := c.overflow || wrapped }
              else .ok c

/-- `BACKUP_RETENTION_LOCAL` in hours: the default stands for every value that is not a number. -/
def retention (var : Option String) : ℕ := (parseU32 (var.getD "720")).getD 720

/-- `retention * 60 * 60` -/
def maxDiffOf (b : Build) (hours : ℕ) : Except String (ℕ × Bool) := do
  let (minutes, wrapped) ← u32 b (hours * 60)
  let (seconds, wrapped') ← u32 b (minutes * 60)
  return (seconds, wrapped || wrapped')

/-- The clean-up of a directory with the entries `all`. -/
def cleanup (b : Build) (var : Option String) (now : Int) (all : List Entry) :
    Except String Cleanup := do
  let (maxDiff, wrapped) ← maxDiffOf b (retention var)
  all.foldlM (cleanEntry b (asU32 now) maxDiff) ⟨[], wrapped⟩

/-! ### What is to be removed -/

/-- The name ends in ten digits, which are a timestamp of the range of interest. -/
def Entry.Stamped (e : Entry) (ts : ℕ) : Prop :=
  ∃ s front ds, e.name = some s ∧ s.toList = front ++ ds ∧ ds.length = 10 ∧
    (∀ c ∈ ds, c.isDigit = true) ∧ decimal ds = ts ∧ tsLow < ts ∧ ts < tsHigh

/-- The timestamp lies more than the given hours before now. -/
def Entry.Expired (now : Int) (hours : ℕ) (e : Entry) : Prop :=
  ∃ ts, e.Stamped ts ∧ (hours * 3600 : Int) < now - ts

/-- The clean-up ends without a panic, no number has wrapped, and the expired entries are gone. -/
def CleansUp (b : Build) (var : Option String) (now : Int) (all : List Entry) : Prop :=
  ∃ c, cleanup b var now all = .ok c ∧ c.overflow = false ∧
    ∀ e, e ∈ c.removed ↔ e ∈ all ∧ e.Expired now (retention var)

/-! ### Reading the timestamp -/

theorem decimal_lt {ds : List Char} (h : ∀ c ∈ ds, c.isDigit = true) :
    decimal ds < 10 ^ ds.length := by
  have hfold : ∀ (ds : List Char) (n : ℕ), (∀ c ∈ ds, c.isDigit = true) →
      ds.foldl (fun n c => n * 10 + (c.toNat - '0'.toNat)) n < (n + 1) * 10 ^ ds.length := by
    intro ds
    induction ds with
    | nil =>
        intro n _
        simp
    | cons c ds ih =>
        intro n hds
        have hdigit : c.toNat - '0'.toNat < 10 := by
          have hc := hds c List.mem_cons_self
          simp only [Char.isDigit, Bool.and_eq_true, decide_eq_true_eq, UInt32.le_iff_toNat_le] at hc
          have hc : c.toNat ≤ 57 := hc.2
          have hzero : '0'.toNat = 48 := rfl
          omega
        have hrest := ih (n * 10 + (c.toNat - '0'.toNat)) fun c' hc' =>
          hds c' (List.mem_cons_of_mem _ hc')
        rw [List.foldl_cons, List.length_cons, pow_succ]
        calc _ < (n * 10 + (c.toNat - '0'.toNat) + 1) * 10 ^ ds.length := hrest
          _ ≤ ((n + 1) * 10) * 10 ^ ds.length := Nat.mul_le_mul_right _ (by omega)
          _ = (n + 1) * (10 ^ ds.length * 10) := by rw [Nat.mul_assoc, Nat.mul_comm 10]
  have h := hfold ds 0 h
  simpa [decimal] using h

theorem utf8Size_of_isDigit {c : Char} (h : c.isDigit = true) : c.utf8Size = 1 := by
  rw [Char.utf8Size_eq_one_iff]
  simp only [Char.isDigit, Bool.and_eq_true, decide_eq_true_eq] at h
  exact UInt32.le_trans h.2 (by decide)

theorem digitsU32_eq_some {ds : List Char} {n : ℕ} : digitsU32 ds = some n ↔
    ds ≠ [] ∧ (∀ c ∈ ds, c.isDigit = true) ∧ decimal ds < 2 ^ 32 ∧ decimal ds = n := by
  rw [digitsU32, ← List.all_eq_true]
  split
  · next h =>
      rw [Option.some.injEq]
      exact ⟨fun hn => ⟨h.1, h.2.1, h.2.2, hn⟩, fun hn => hn.2.2.2⟩
  · next h =>
      constructor
      · intro he
        cases he
      · rintro ⟨hne, hall, hlt, -⟩
        exact absurd ⟨hne, hall, hlt⟩ h

/-- The last ten bytes of the name, if it can be cut. -/
def Entry.cut (e : Entry) : Option String := e.name.bind fun s => Text.lastBytes s 10

/-- The timestamp that the loop reads, if it is in the range of interest. -/
def Entry.stamp (e : Entry) : Option ℕ :=
  (e.cut.bind parseU32).filter fun ts => tsLow < ts ∧ ts < tsHigh

/-- **What the loop reads is the timestamp**: ten bytes with a sign are a number that is too
small. -/
theorem stamp_iff {e : Entry} {ts : ℕ} : e.stamp = some ts ↔ e.Stamped ts := by
  rw [Entry.stamp, Option.filter_eq_some_iff, decide_eq_true_eq, Entry.cut]
  constructor
  · rintro ⟨hparse, hlow, hhigh⟩
    obtain ⟨t, ht, hparse⟩ := Option.bind_eq_some_iff.mp hparse
    obtain ⟨s, hname, hlast⟩ := Option.bind_eq_some_iff.mp ht
    obtain ⟨hlen, front, hs⟩ := Text.lastBytes_eq_some hlast
    have hlist : String.utf8Len t.toList = 10 := by
      rw [← hlen, Text.len, ← String.utf8ByteSize_ofList, String.ofList_toList]
    unfold parseU32 at hparse
    split at hparse
    · next rest hplus =>
        -- a sign and nine digits
        obtain ⟨-, hdigits, -, hvalue⟩ := digitsU32_eq_some.mp hparse
        have hlt := decimal_lt hdigits
        have hsize : '+'.utf8Size = 1 := by decide
        rw [hplus, String.utf8Len, hsize,
          Text.utf8Len_of_ascii fun c hc => utf8Size_of_isDigit (hdigits c hc)] at hlist
        have hnine : rest.length = 9 := by omega
        rw [hnine, hvalue] at hlt
        rw [tsLow] at hlow
        omega
    · obtain ⟨-, hdigits, -, hvalue⟩ := digitsU32_eq_some.mp hparse
      rw [Text.utf8Len_of_ascii fun c hc => utf8Size_of_isDigit (hdigits c hc)] at hlist
      exact ⟨s, front, t.toList, hname, hs, hlist, hdigits, hvalue, hlow, hhigh⟩
  · rintro ⟨s, front, ds, hname, hs, hlen, hdigits, rfl, hlow, hhigh⟩
    have hne : ds ≠ [] := fun h => by rw [h] at hlen; cases hlen
    have hlast := Text.lastBytes_of_ascii hs (fun c hc => utf8Size_of_isDigit (hdigits c hc)) hne
    rw [hlen] at hlast
    refine ⟨Option.bind_eq_some_iff.mpr ⟨String.ofList ds,
      Option.bind_eq_some_iff.mpr ⟨s, hname, hlast⟩, ?_⟩, hlow, hhigh⟩
    have hplus : ∀ rest, ds ≠ '+' :: rest := by
      rintro rest rfl
      have hsign := hdigits '+' List.mem_cons_self
      revert hsign
      decide
    have hsmall : decimal ds < 2 ^ 32 := by
      rw [tsHigh] at hhigh
      omega
    unfold parseU32
    rw [String.toList_ofList]
    split
    · next rest => exact absurd rfl (hplus rest)
    · exact digitsU32_eq_some.mpr ⟨hne, hdigits, hsmall, rfl⟩

/-! ### The loop -/

section Loop

variable {b : Build} {tsNow maxDiff : ℕ} {c c' : Cleanup} {e : Entry} {all : List Entry}

theorem u32_ok {n : Int} {m : ℕ} {wrapped : Bool} (h : u32 b n = .ok (m, wrapped)) :
    wrapped = false ↔ 0 ≤ n ∧ n < 2 ^ 32 := by
  unfold u32 at h
  split at h
  · next hn =>
      cases h
      exact iff_of_true rfl hn
  · next hn =>
      cases b with
      | debug => cases h
      | release =>
          cases h
          exact iff_of_false (by decide) hn

theorem u32_fits {n : Int} (h : 0 ≤ n ∧ n < 2 ^ 32) (b : Build) : u32 b n = .ok (n.toNat, false) :=
  if_pos h

theorem u32_nat {n : ℕ} (h : n < 2 ^ 32) (b : Build) : u32 b n = .ok (n, false) := by
  rw [u32_fits ⟨Int.natCast_nonneg n, by exact_mod_cast h⟩, Int.toNat_natCast]

/-- The loop removes the entry. -/
def Entry.doomed (tsNow maxDiff : ℕ) (e : Entry) : Bool :=
  e.isDir && e.stamp.any fun ts => maxDiff < tsNow - ts

/-- The loop comes through the entry without a panic and without wrapping a number. -/
def Entry.Passes (tsNow : ℕ) (e : Entry) : Prop :=
  e.cut.isSome = true ∧ ∀ ts, e.stamp = some ts → ts ≤ tsNow

/-- A round on an entry that is cut, in terms of what is read. -/
theorem cleanEntry_cut (h : e.cut.isSome = true) :
    cleanEntry b tsNow maxDiff c e = match e.stamp with
      | none => .ok c
      | some ts => match u32 b (tsNow - ts) with
          | .error e => .error e
          | .ok (diff, wrapped) => .ok
              { removed := c.removed ++ (if maxDiff < diff then removeDirAll e else [])
                overflow := c.overflow || wrapped } := by
  obtain ⟨t, ht⟩ := Option.isSome_iff_exists.mp h
  rw [Entry.stamp, ht, Option.bind_some]
  rw [Entry.cut] at ht
  obtain ⟨s, hname, hlast⟩ := Option.bind_eq_some_iff.mp ht
  rw [cleanEntry, hname]
  simp only [hlast]
  rcases parseU32 t with - | ts
  · rfl
  · by_cases hrange : tsLow < ts ∧ ts < tsHigh
    · simp [Option.filter, hrange]
    · simp [Option.filter, hrange]

theorem cleanEntry_uncut (h : ¬ e.cut.isSome = true) :
    cleanEntry b tsNow maxDiff c e ≠ .ok c' := by
  intro hc
  apply h
  rw [cleanEntry] at hc
  rw [Entry.cut]
  rcases hname : e.name with - | s
  · rw [hname] at hc
    cases hc
  · rw [hname] at hc
    rcases hlast : Text.lastBytes s 10 with - | t
    · simp only [hlast] at hc
      cases hc
    · rw [Option.bind_some, hlast]
      rfl

theorem cleanEntry_overflow (h : cleanEntry b tsNow maxDiff c e = .ok c')
    (ho : c'.overflow = false) : c.overflow = false := by
  by_cases hcut : e.cut.isSome = true
  · rw [cleanEntry_cut hcut] at h
    rcases hstamp : e.stamp with - | ts
    · rw [hstamp] at h
      cases h
      exact ho
    · rw [hstamp] at h
      rcases hdiff : u32 b (tsNow - ts) with err | ⟨diff, wrapped⟩
      · simp only [hdiff] at h
        cases h
      · simp only [hdiff] at h
        cases h
        exact (Bool.or_eq_false_iff.mp ho).1
  · exact absurd h (cleanEntry_uncut hcut)

theorem doomed_none (h : e.stamp = none) : e.doomed tsNow maxDiff = false := by
  rw [Entry.doomed, h, Option.any_none, Bool.and_false]

theorem filter_doomed {ts : ℕ} (h : e.stamp = some ts) :
    [e].filter (Entry.doomed tsNow maxDiff) =
      if maxDiff < tsNow - ts then removeDirAll e else [] := by
  rw [List.filter_cons, Entry.doomed, h, Option.any_some, removeDirAll]
  by_cases hdiff : maxDiff < tsNow - ts <;> by_cases hdir : e.isDir = true <;> simp [hdiff, hdir]

/-- **One round**: it ends well exactly for an entry that passes, which it removes if the entry is
doomed. -/
theorem cleanEntry_iff (hnow : tsNow < 2 ^ 32) (hc : c.overflow = false) :
    (cleanEntry b tsNow maxDiff c e = .ok c' ∧ c'.overflow = false) ↔
      e.Passes tsNow ∧ c' = { removed := c.removed ++ [e].filter (Entry.doomed tsNow maxDiff)
                              overflow := false } := by
  by_cases hcut : e.cut.isSome = true
  · rw [cleanEntry_cut hcut, Entry.Passes]
    rcases hstamp : e.stamp with - | ts
    · have hsame : c = { removed := c.removed ++ [e].filter (Entry.doomed tsNow maxDiff)
                         overflow := false } := by
        rw [List.filter_cons, if_neg (by simp [doomed_none hstamp]), List.filter_nil,
          List.append_nil, ← hc]
      rw [← hsame]
      constructor
      · rintro ⟨h, -⟩
        exact ⟨⟨hcut, fun ts hts => by cases hts⟩, (Except.ok.inj h).symm⟩
      · rintro ⟨-, rfl⟩
        exact ⟨rfl, hc⟩
    · rw [filter_doomed hstamp]
      by_cases hpast : ts ≤ tsNow
      · have hdiff : u32 b ((tsNow : Int) - ts) = .ok (tsNow - ts, false) := by
          rw [u32_fits ⟨by omega, by omega⟩]
          congr 2
          omega
        simp only [hdiff, hc, Bool.or_false]
        constructor
        · rintro ⟨h, -⟩
          exact ⟨⟨hcut, fun ts' hts' => Option.some.inj hts' ▸ hpast⟩, (Except.ok.inj h).symm⟩
        · rintro ⟨-, rfl⟩
          exact ⟨rfl, rfl⟩
      · -- the difference is negative: an error, or a number that has wrapped
        constructor
        · rintro ⟨h, ho⟩
          rcases hdiff : u32 b ((tsNow : Int) - ts) with err | ⟨diff, wrapped⟩
          · simp only [hdiff] at h
            cases h
          · simp only [hdiff] at h
            obtain rfl := (Except.ok.inj h).symm
            have hfits := (u32_ok hdiff).mp (Bool.or_eq_false_iff.mp ho).2
            omega
        · rintro ⟨⟨-, hall⟩, -⟩
          exact absurd (hall ts rfl) hpast
  · constructor
    · exact fun h => absurd h.1 (cleanEntry_uncut hcut)
    · exact fun h => absurd h.1.1 hcut

theorem foldlM_overflow (h : all.foldlM (cleanEntry b tsNow maxDiff) c = .ok c')
    (ho : c'.overflow = false) : c.overflow = false := by
  induction all generalizing c with
  | nil =>
      obtain rfl := Except.ok.inj h
      exact ho
  | cons e all ih =>
      rw [List.foldlM_cons] at h
      obtain ⟨c₁, hround, hrest⟩ := bind_eq_ok.mp h
      exact cleanEntry_overflow hround (ih hrest)

/-- **The loop**: it ends well exactly if every entry passes, and has then removed the doomed
ones. -/
theorem foldlM_cleanEntry_iff (hnow : tsNow < 2 ^ 32) (hc : c.overflow = false) :
    (all.foldlM (cleanEntry b tsNow maxDiff) c = .ok c' ∧ c'.overflow = false) ↔
      (∀ e ∈ all, e.Passes tsNow) ∧
        c' = { removed := c.removed ++ all.filter (Entry.doomed tsNow maxDiff), overflow := false } := by
  induction all generalizing c with
  | nil =>
      have hsame : c = { removed := c.removed ++ [], overflow := false } := by
        rw [List.append_nil, ← hc]
      rw [List.filter_nil, ← hsame]
      constructor
      · rintro ⟨h, -⟩
        exact ⟨fun e he => (by cases he), (Except.ok.inj h).symm⟩
      · rintro ⟨-, rfl⟩
        exact ⟨rfl, hc⟩
  | cons e all ih =>
      rw [List.foldlM_cons]
      have hsplit : c.removed ++ (e :: all).filter (Entry.doomed tsNow maxDiff) =
          c.removed ++ [e].filter (Entry.doomed tsNow maxDiff) ++
            all.filter (Entry.doomed tsNow maxDiff) := by
        rw [List.append_assoc, ← List.filter_append]
        rfl
      constructor
      · rintro ⟨h, ho⟩
        obtain ⟨c₁, hround, hrest⟩ := bind_eq_ok.mp h
        obtain ⟨hpasses, rfl⟩ := (cleanEntry_iff hnow hc).mp ⟨hround, foldlM_overflow hrest ho⟩
        obtain ⟨hall, hc'⟩ := (ih rfl).mp ⟨hrest, ho⟩
        refine ⟨fun e' he' => ?_, by rw [hc', hsplit]⟩
        rcases List.mem_cons.mp he' with rfl | he'
        · exact hpasses
        · exact hall e' he'
      · rintro ⟨hall, hc'⟩
        obtain ⟨hround, -⟩ := (cleanEntry_iff (b := b) hnow hc).mpr
          ⟨hall e List.mem_cons_self, rfl⟩
        rw [hsplit] at hc'
        let c₁ : Cleanup :=
          { removed := c.removed ++ [e].filter (Entry.doomed tsNow maxDiff), overflow := false }
        obtain ⟨hrest, ho⟩ := (ih (c := c₁) rfl).mpr
          ⟨fun e' he' => hall e' (List.mem_cons_of_mem _ he'), hc'⟩
        exact ⟨bind_eq_ok.mpr ⟨_, hround, hrest⟩, ho⟩

end Loop

/-! ### The clean-up -/

section Cleanup

variable {b : Build} {var : Option String} {now : Int} {all : List Entry}

/-- The condition: the retention fits into 32 bits, every name is cut, no timestamp is ahead of the
clock, and with the clock in 32 bits the same entries are out of date, none of them a plain file. -/
structure Tidy (var : Option String) (now : Int) (all : List Entry) : Prop where
  hours : retention var * 3600 < 2 ^ 32
  names : ∀ e ∈ all, ∃ s, e.name = some s ∧ (Text.lastBytes s 10).isSome = true
  past : ∀ e ∈ all, ∀ ts, e.Stamped ts → ts ≤ asU32 now
  ages : ∀ e ∈ all, ∀ ts, e.Stamped ts →
    (e.isDir = true ∧ retention var * 3600 < asU32 now - ts ↔
      (retention var * 3600 : Int) < now - ts)

theorem asU32_lt (now : Int) : asU32 now < 2 ^ 32 := by
  rw [asU32]
  omega

theorem cut_isSome {e : Entry} : e.cut.isSome = true ↔
    ∃ s, e.name = some s ∧ (Text.lastBytes s 10).isSome = true := by
  rw [Entry.cut]
  rcases e.name with - | s <;> simp

/-- The retention in seconds is computed without wrapping exactly if it fits. -/
theorem maxDiffOf_fits {hours : ℕ} (h : hours * 3600 < 2 ^ 32) (b : Build) :
    maxDiffOf b hours = .ok (hours * 3600, false) := by
  have hminutes : u32 b ((hours : Int) * 60) = .ok (hours * 60, false) := by
    rw [show (hours : Int) * 60 = (hours * 60 : ℕ) by omega]
    exact u32_nat (by omega) b
  have hseconds : u32 b (((hours * 60 : ℕ) : Int) * 60) = .ok (hours * 3600, false) := by
    rw [show ((hours * 60 : ℕ) : Int) * 60 = (hours * 3600 : ℕ) by omega]
    exact u32_nat h b
  rw [maxDiffOf, hminutes]
  exact bind_eq_ok.mpr ⟨_, rfl, bind_eq_ok.mpr ⟨_, hseconds, rfl⟩⟩

theorem fits_of_maxDiffOf {hours n : ℕ} (h : maxDiffOf b hours = .ok (n, false)) :
    hours * 3600 < 2 ^ 32 := by
  obtain ⟨⟨minutes, wrapped⟩, hminutes, h₁⟩ := bind_eq_ok.mp h
  obtain ⟨⟨seconds, wrapped'⟩, hseconds, h₂⟩ := bind_eq_ok.mp h₁
  obtain ⟨rfl, hor⟩ := Prod.mk.inj (Except.ok.inj h₂)
  obtain ⟨rfl, rfl⟩ := Bool.or_eq_false_iff.mp hor
  have hfits := (u32_ok hminutes).mp rfl
  rw [u32_fits hfits] at hminutes
  obtain ⟨rfl, -⟩ := Prod.mk.inj (Except.ok.inj hminutes)
  have hfits' := (u32_ok hseconds).mp rfl
  omega

theorem cleanup_fits (h : retention var * 3600 < 2 ^ 32) :
    cleanup b var now all =
      all.foldlM (cleanEntry b (asU32 now) (retention var * 3600)) ⟨[], false⟩ := by
  rw [cleanup, maxDiffOf_fits h]
  rfl

/-- A retention that does not fit panics or wraps, even if there is no entry. -/
theorem cleanup_hours {c : Cleanup} (h : cleanup b var now all = .ok c) (ho : c.overflow = false) :
    retention var * 3600 < 2 ^ 32 := by
  obtain ⟨⟨maxDiff, wrapped⟩, hdiff, h₁⟩ := bind_eq_ok.mp h
  obtain rfl : wrapped = false := foldlM_overflow h₁ ho
  exact fits_of_maxDiffOf hdiff

/-- **The clean-up does what it should** exactly for a tidy directory, in every build. -/
theorem cleanup_iff (b : Build) (var : Option String) (now : Int) (all : List Entry) :
    CleansUp b var now all ↔ Tidy var now all := by
  have hnow := asU32_lt now
  constructor
  · rintro ⟨c, hrun, ho, hremoved⟩
    have hours := cleanup_hours hrun ho
    rw [cleanup_fits hours] at hrun
    obtain ⟨hpasses, rfl⟩ := (foldlM_cleanEntry_iff hnow rfl).mp ⟨hrun, ho⟩
    refine ⟨hours, fun e he => cut_isSome.mp (hpasses e he).1,
      fun e he ts hts => (hpasses e he).2 ts (stamp_iff.mpr hts), fun e he ts hts => ?_⟩
    have hstamp := stamp_iff.mpr hts
    have hmem := hremoved e
    rw [List.nil_append, List.mem_filter, Entry.doomed, hstamp, Option.any_some, Bool.and_eq_true,
      decide_eq_true_eq] at hmem
    constructor
    · intro hdoomed
      obtain ⟨-, ts', hts', hold⟩ := hmem.mp ⟨he, hdoomed⟩
      obtain rfl := Option.some.inj (hstamp.symm.trans (stamp_iff.mpr hts'))
      exact hold
    · intro hold
      exact (hmem.mpr ⟨he, ts, hts, hold⟩).2
  · intro h
    have hpasses : ∀ e ∈ all, e.Passes (asU32 now) := fun e he =>
      ⟨cut_isSome.mpr (h.names e he), fun ts hts => h.past e he ts (stamp_iff.mp hts)⟩
    let doomed := all.filter (Entry.doomed (asU32 now) (retention var * 3600))
    obtain ⟨hrun, ho⟩ : all.foldlM (cleanEntry b (asU32 now) (retention var * 3600)) ⟨[], false⟩ =
        .ok ⟨[] ++ doomed, false⟩ ∧ (⟨[] ++ doomed, false⟩ : Cleanup).overflow = false :=
      (foldlM_cleanEntry_iff hnow rfl).mpr ⟨hpasses, rfl⟩
    refine ⟨_, by rw [cleanup_fits h.hours]; exact hrun, ho, fun e => ?_⟩
    rw [List.nil_append, List.mem_filter]
    refine and_congr_right fun he => ?_
    constructor
    · intro hdoomed
      rw [Entry.doomed, Bool.and_eq_true] at hdoomed
      obtain ⟨hdir, hany⟩ := hdoomed
      rcases hstamp : e.stamp with - | ts
      · rw [hstamp] at hany
        cases hany
      · rw [hstamp, Option.any_some, decide_eq_true_eq] at hany
        have hts := stamp_iff.mp hstamp
        exact ⟨ts, hts, (h.ages e he ts hts).mp ⟨hdir, hany⟩⟩
    · rintro ⟨ts, hts, hold⟩
      obtain ⟨hdir, hage⟩ := (h.ages e he ts hts).mpr hold
      rw [Entry.doomed, stamp_iff.mpr hts, Option.any_some, hdir, decide_eq_true hage]
      rfl

end Cleanup

/-- A short name ends the clean-up with a panic, in a build without overflow checks as well. -/
theorem short_name_panics :
    ¬ ∀ (b : Build) (var : Option String) (now : Int) (all : List Entry), CleansUp b var now all := by
  intro h
  obtain ⟨c, hrun, -⟩ := h .release none 1700000000
    [⟨some "rauthy-backup-1670000001", true⟩, ⟨some ".gitkeep", false⟩]
  have hpanic : cleanup .release none 1700000000
      [⟨some "rauthy-backup-1670000001", true⟩, ⟨some ".gitkeep", false⟩] =
      .error "failed to slice string" := by
    decide +kernel
  rw [hpanic] at hrun
  cases hrun

-- without overflow checks, the backup of a clock that was a second ahead is removed as too old
example : cleanup .release none 1700000000 [⟨some "rauthy-backup-1700000001", true⟩] =
    .ok ⟨[⟨some "rauthy-backup-1700000001", true⟩], true⟩ := by
  decide +kernel

end Backup

end Rauthy
