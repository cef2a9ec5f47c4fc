/-
Rauthy/Validation.lean

The regular expressions of `rauthy-common/src/constants.rs` and the checks of
`rauthy-models/src/request.rs` that the names in requests have to pass: names of roles,
groups, scopes and attributes, URIs, and code challenges.

All of them are lists of admitted characters.  None admits white space; `RE_GROUPS` and
`RE_URI` admit the comma, which separates the elements of the lists in the database.
-/
import Rauthy.Lib.Text
import Rauthy.World

namespace Rauthy

/-- `^[…]{lo,hi}$` for a class of characters -/
def matchesClass (cls : Char → Bool) (lo : ℕ) (hi : Option ℕ) (s : String) : Bool :=
  s.toList.all cls && decide (lo ≤ s.toList.length) && hi.all fun n => decide (s.toList.length ≤ n)

/-- `[a-z0-9]` -/
def isLowerAlnum (c : Char) : Bool := ('a' ≤ c && c ≤ 'z') || ('0' ≤ c && c ≤ '9')

/-- `[a-zA-Z0-9-_/]` -/
def attrChar (c : Char) : Bool := isAlnum c || c == '-' || c == '_' || c == '/'

/-- `[a-z0-9-_/,:*]` -/
def groupsChar (c : Char) : Bool :=
  isLowerAlnum c || c == '-' || c == '_' || c == '/' || c == ',' || c == ':' || c == '*'

/-- `[a-zA-Z0-9,.:/_\-&?=~#!$'()*+%]` -/
def uriChar (c : Char) : Bool := isAlnum c || ",.:/_-&?=~#!$'()*+%".toList.contains c

/-- `RE_ATTR` -/
def reAttr : String → Bool := matchesClass attrChar 2 (some 32)

/-- `RE_ALNUM` -/
def reAlnum : String → Bool := matchesClass isAlnum 1 none

/-- `RE_GROUPS` -/
def reGroups : String → Bool := matchesClass groupsChar 2 (some 64)

/-- `RE_URI` -/
def reUri : String → Bool := matchesClass uriChar 1 none

/-- `RE_CHALLENGE` -/
def reChallenge (s : String) : Bool := s == "plain" || s == "S256"

/-- `validate_vec_uri` -/
def validateVecUri (value : List String) : Bool := value.all reUri

/-- `validate_vec_groups`, `validate_vec_roles` and `validate_vec_scopes` -/
def validateVecGroups (value : List String) : Bool := value.all reGroups

/-- `validate_vec_challenge` -/
def validateVecChallenge (value : List String) : Bool := !value.isEmpty && value.all reChallenge

/-! ### What the admitted texts have in common -/

/-- There is no white space in the text. -/
def NoSpace (s : String) : Prop := ∀ c ∈ s.toList, Text.isWhitespace c = false

instance (s : String) : Decidable (NoSpace s) := List.decidableBAll _ s.toList

section Classes

variable {cls : Char → Bool} {lo : ℕ} {hi : Option ℕ} {s : String} {c : Char}

theorem mem_of_matchesClass (h : matchesClass cls lo hi s = true) : ∀ c ∈ s.toList, cls c = true := by
  rw [matchesClass, Bool.and_eq_true, Bool.and_eq_true, List.all_eq_true] at h
  exact h.1.1

theorem ne_nil_of_matchesClass (h : matchesClass cls lo hi s = true) (hlo : 0 < lo) :
    s.toList ≠ [] := by
  rw [matchesClass, Bool.and_eq_true, Bool.and_eq_true, decide_eq_true_eq] at h
  intro hs
  have hlen := h.1.2
  rw [hs, List.length_nil] at hlen
  omega

theorem noSpace_of_matchesClass (hcls : ∀ c, cls c = true → Text.isWhitespace c = false)
    (h : matchesClass cls lo hi s = true) : NoSpace s :=
  fun c hc => hcls c (mem_of_matchesClass h c hc)

theorem not_whitespace_of_visible (hlo : 0x20 < c.toNat) (hhi : c.toNat < 0x7F) :
    Text.isWhitespace c = false := by
  unfold Text.isWhitespace
  simp only [Bool.or_eq_false_iff, Bool.and_eq_false_iff, beq_eq_false_iff_ne,
    decide_eq_false_iff_not]
  omega

theorem visible_of_alnum (h : isAlnum c = true) : 0x20 < c.toNat ∧ c.toNat < 0x7F := by
  have hle : ∀ a b : Char, a ≤ b ↔ a.toNat ≤ b.toNat := fun a b => Iff.rfl
  simp only [isAlnum, Bool.or_eq_true, Bool.and_eq_true, decide_eq_true_eq, hle] at h
  have hbounds : 'a'.toNat = 97 ∧ 'z'.toNat = 122 ∧ 'A'.toNat = 65 ∧ 'Z'.toNat = 90 ∧
      '0'.toNat = 48 ∧ '9'.toNat = 57 := by decide
  omega

theorem isAlnum_of_lower (h : isLowerAlnum c = true) : isAlnum c = true := by
  simp only [isLowerAlnum, isAlnum, Bool.or_eq_true] at h ⊢
  rcases h with h | h
  · exact .inl (.inl h)
  · exact .inr h

theorem visible_of_groupsChar (h : groupsChar c = true) : 0x20 < c.toNat ∧ c.toNat < 0x7F := by
  simp only [groupsChar, Bool.or_eq_true, beq_iff_eq] at h
  rcases h with (((((h | rfl) | rfl) | rfl) | rfl) | rfl) | rfl
  · exact visible_of_alnum (isAlnum_of_lower h)
  all_goals decide

theorem visible_of_uriChar (h : uriChar c = true) : 0x20 < c.toNat ∧ c.toNat < 0x7F := by
  rw [uriChar, Bool.or_eq_true] at h
  rcases h with h | h
  · exact visible_of_alnum h
  · have hall : ",.:/_-&?=~#!$'()*+%".toList.all
        (fun c => decide (0x20 < c.toNat ∧ c.toNat < 0x7F)) = true := by decide
    exact of_decide_eq_true (List.all_eq_true.mp hall c (by simpa using h))

end Classes

section Names

variable {s : String}

theorem noSpace_of_reGroups (h : reGroups s = true) : NoSpace s :=
  noSpace_of_matchesClass (fun _ hc =>
    not_whitespace_of_visible (visible_of_groupsChar hc).1 (visible_of_groupsChar hc).2) h

theorem ne_nil_of_reGroups (h : reGroups s = true) : s.toList ≠ [] :=
  ne_nil_of_matchesClass h (by decide)

theorem noSpace_of_reUri (h : reUri s = true) : NoSpace s :=
  noSpace_of_matchesClass (fun _ hc =>
    not_whitespace_of_visible (visible_of_uriChar hc).1 (visible_of_uriChar hc).2) h

theorem ne_nil_of_reAttr (h : reAttr s = true) : s.toList ≠ [] :=
  ne_nil_of_matchesClass h (by decide)

theorem not_mem_comma_of_reAttr (h : reAttr s = true) : ',' ∉ s.toList := by
  intro hc
  have hcomma := mem_of_matchesClass h ',' hc
  exact absurd hcomma (by decide)

end Names

end Rauthy
