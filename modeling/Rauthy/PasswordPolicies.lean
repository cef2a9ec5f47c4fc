/-
Rauthy/PasswordPolicies.lean

The password policy: what an admin can set (`PasswordPolicyRequest`, `put_password_policy`), and
whether a password can meet it (`User::apply_password_rules`).  The bounds of the request are
checked one by one.  Every character is counted in one class at most, so that the classes that a
policy requires have to fit into the maximum length together.

Main results:
  * `checkPolicy_iff`, what a new password has to be;
  * `policy_satisfiable_iff`, when a stored policy admits a password at all;
  * `min_above_max`: a request that passes its validation and that no password meets.
-/
import Rauthy.Users

namespace Rauthy

open Prog

/-! ### The request -/

structure PasswordPolicyRequest where
  lengthMin : Int
  lengthMax : Int
  includeLowerCase : Option Int
  includeUpperCase : Option Int
  includeDigits : Option Int
  includeSpecial : Option Int
  validDays : Option Int
  notRecentlyUsed : Option Int
  deriving DecidableEq

/-- `#[validate(range(min, max))]`; a value that is not given is not checked. -/
def inRange (min max : Int) (value : Option Int) : Bool :=
  value.all fun n => decide (min ≤ n) && decide (n ≤ max)

/-- The validation of the request. -/
def PasswordPolicyRequest.validate (req : PasswordPolicyRequest) : Bool :=
  inRange 8 128 (some req.lengthMin) && inRange 8 128 (some req.lengthMax) &&
  inRange 1 32 req.includeLowerCase && inRange 1 32 req.includeUpperCase &&
  inRange 1 32 req.includeDigits && inRange 1 32 req.includeSpecial &&
  inRange 1 3650 req.validDays && inRange 1 10 req.notRecentlyUsed

namespace PasswordPolicy

def applyReq (_ : PasswordPolicy) (req : PasswordPolicyRequest) : PasswordPolicy where
  lengthMin := req.lengthMin
  lengthMax := req.lengthMax
  includeLowerCase := req.includeLowerCase
  includeUpperCase := req.includeUpperCase
  includeDigits := req.includeDigits
  includeSpecial := req.includeSpecial
  validDays := req.validDays
  notRecentlyUsed := req.notRecentlyUsed

def save (slf : PasswordPolicy) : M ErrorResponse Unit := do
  execute [.update .passwordPolicy (fun _ => true) fun _ => slf]
  cachePut .c12hr "password_rules_" (.policy slf)

end PasswordPolicy

/-- `put_password_policy`, once the principal is checked -/
def putPasswordPolicy (reqData : PasswordPolicyRequest) : M ErrorResponse PasswordPolicy := do
  let rules ← PasswordPolicy.find
  let rules := rules.applyReq reqData
  rules.save
  return rules

/-! ### Policies and passwords -/

/-- The table holds this policy, and so does the cache if it holds one. -/
structure PolicyStored (rules : PasswordPolicy) (w : World) : Prop where
  row : w.db .passwordPolicy = [rules]
  cached : ∀ v, w.cache .c12hr "password_rules_" = some v → v = .policy rules

/-- The number of characters that the policy requires. -/
def PasswordPolicy.required (rules : PasswordPolicy) : Int :=
  rules.includeLowerCase.getD 0 + rules.includeUpperCase.getD 0 + rules.includeDigits.getD 0 +
    rules.includeSpecial.getD 0

/-- The user has no recent passwords. -/
def NoHistory (w : World) (u : User) : Prop := ∀ r ∈ w.db .recentPasswords, r.userId ≠ u.id

/-- The rules let the user have this password. -/
def PasswordAccepted (data : AppState) (w : World) (u : User) (plain : String) : Prop :=
  ∃ u' w', Exec sem (u.applyPasswordRules data plain) w (.ok u') w'

/-- The classes of the characters of ASCII. -/
structure AsciiClasses (data : AppState) : Prop where
  lower : ∀ c : Char, c.val < 128 → data.isLowercase c = ('a' ≤ c && c ≤ 'z')
  upper : ∀ c : Char, c.val < 128 → data.isUppercase c = ('A' ≤ c && c ≤ 'Z')
  alphanumeric : ∀ c : Char, c.val < 128 → data.isAlphanumeric c = isAlnum c

variable {data : AppState} {rules : PasswordPolicy} {w w' : World} {u : User} {plain : String}
  {req : PasswordPolicyRequest}

/-! ### Classes of characters -/

namespace User

/-- The number of characters that have been counted. -/
def CharCounts.total (n : CharCounts) : Int := n.lower + n.upper + n.digit + n.special

theorem CharCounts.total_add (n : CharCounts) (c : Char) : (n.add data c).total ≤ n.total + 1 := by
  rw [CharCounts.add, CharCounts.total, CharCounts.total]
  split_ifs <;> grind

theorem CharCounts.total_foldl (n : CharCounts) (cs : List Char) :
    (cs.foldl (CharCounts.add data) n).total ≤ n.total + cs.length := by
  induction cs generalizing n with
  | nil => exact (Int.add_zero _).ge
  | cons c cs ih =>
      have hrest := ih (n.add data c)
      have hadd : (n.add data c).total ≤ n.total + 1 := n.total_add c
      rw [List.foldl_cons, List.length_cons]
      omega

/-- A count that every character leaves or raises, and `c` raises. -/
theorem CharCounts.count_le {field : CharCounts → Int} {c : Char}
    (hmono : ∀ n c', field n ≤ field (CharCounts.add data n c'))
    (hadd : ∀ n, field (CharCounts.add data n c) = field n + 1) (n : CharCounts) (cs : List Char) :
    field n + cs.count c ≤ field (cs.foldl (CharCounts.add data) n) := by
  induction cs generalizing n with
  | nil => exact (Int.add_zero _).le
  | cons c' cs ih =>
      have hrest := ih (n.add data c')
      rw [List.foldl_cons, List.count_cons]
      by_cases hc : c' = c
      · rw [hc, hadd] at hrest
        rw [hc, beq_self_eq_true, if_pos rfl]
        omega
      · rw [if_neg (by simpa using hc)]
        have hstep := hmono n c'
        omega

theorem CharCounts.lower_le (n : CharCounts) (c : Char) : n.lower ≤ (n.add data c).lower := by
  rw [CharCounts.add]
  split_ifs <;> grind

theorem CharCounts.upper_le (n : CharCounts) (c : Char) : n.upper ≤ (n.add data c).upper := by
  rw [CharCounts.add]
  split_ifs <;> grind

theorem CharCounts.digit_le (n : CharCounts) (c : Char) : n.digit ≤ (n.add data c).digit := by
  rw [CharCounts.add]
  split_ifs <;> grind

theorem CharCounts.special_le (n : CharCounts) (c : Char) :
    n.special ≤ (n.add data c).special := by
  rw [CharCounts.add]
  split_ifs <;> grind

theorem CharCounts.add_ascii (hclasses : AsciiClasses data) (n : CharCounts) :
    n.add data 'a' = { n with lower := n.lower + 1 } ∧
    n.add data 'A' = { n with upper := n.upper + 1 } ∧
    n.add data '0' = { n with digit := n.digit + 1 } ∧
    n.add data '!' = { n with special := n.special + 1 } := by
  have hlower := fun c (hc : c.val < 128) => hclasses.lower c hc
  refine ⟨?_, ?_, ?_, ?_⟩
  · rw [CharCounts.add, hlower 'a' (by decide)]
    rfl
  · rw [CharCounts.add, hlower 'A' (by decide), hclasses.upper 'A' (by decide)]
    rfl
  · rw [CharCounts.add, hlower '0' (by decide), hclasses.upper '0' (by decide)]
    rfl
  · rw [CharCounts.add, hlower '!' (by decide), hclasses.upper '!' (by decide),
      hclasses.alphanumeric '!' (by decide)]
    rfl

/-- No more characters are counted than the password has bytes. -/
theorem total_charCounts (plain : String) : (charCounts data plain).total ≤ Text.len plain := by
  have htotal := @CharCounts.total_foldl data ⟨0, 0, 0, 0⟩ plain.toList
  have hlen := Text.length_le_len plain
  rw [charCounts]
  have hzero : (⟨0, 0, 0, 0⟩ : CharCounts).total = 0 := rfl
  omega

/-- **What a new password has to be.** -/
structure Meets (data : AppState) (rules : PasswordPolicy) (plain : String) : Prop where
  min : rules.lengthMin ≤ Text.len plain
  max : Text.len plain ≤ rules.lengthMax
  lower : rules.includeLowerCase.getD 0 ≤ (charCounts data plain).lower
  upper : rules.includeUpperCase.getD 0 ≤ (charCounts data plain).upper
  digit : rules.includeDigits.getD 0 ≤ (charCounts data plain).digit
  special : rules.includeSpecial.getD 0 ≤ (charCounts data plain).special

theorem checkCount_iff {what : String} {req : Option Int} {n : Int} {v : Unit} :
    checkCount what req n = .ok v ↔ req.getD 0 ≤ n := by
  rw [checkCount]
  split
  · next h => simp [h]
  · next h => simp [Int.not_lt.mp h]

theorem checkPolicy_iff (hmin : 0 ≤ rules.lengthMin ∧ rules.lengthMin < 2 ^ 64)
    (hmax : 0 ≤ rules.lengthMax ∧ rules.lengthMax < 2 ^ 64) :
    checkPolicy data rules plain = .ok () ↔ Meets data rules plain := by
  rw [checkPolicy, Int.emod_eq_of_lt hmin.1 hmin.2, Int.emod_eq_of_lt hmax.1 hmax.2]
  by_cases hlen : rules.lengthMin ≤ Text.len plain ∧ Text.len plain ≤ rules.lengthMax
  · rw [if_neg (not_lt.mpr hlen.1), if_neg (by omega)]
    have hcounts : (do
          checkCount "lower character" rules.includeLowerCase (charCounts data plain).lower
          checkCount "upper character" rules.includeUpperCase (charCounts data plain).upper
          checkCount "digit" rules.includeDigits (charCounts data plain).digit
          checkCount "special character" rules.includeSpecial (charCounts data plain).special) =
        .ok () ↔ Meets data rules plain := by
      simp only [bind_eq_ok, checkCount_iff, exists_const]
      exact ⟨fun h => ⟨hlen.1, hlen.2, h.1, h.2.1, h.2.2.1, h.2.2.2⟩,
        fun h => ⟨h.lower, h.upper, h.digit, h.special⟩⟩
    exact hcounts
  · have hnot : ¬ Meets data rules plain := fun h => hlen ⟨h.min, h.max⟩
    refine iff_of_false (fun h => ?_) hnot
    by_cases hshort : (Text.len plain : Int) < rules.lengthMin
    · rw [if_pos hshort] at h
      cases h
    · rw [if_neg hshort, if_pos (by omega)] at h
      cases h

end User

/-! ### The rules -/

theorem PolicyStored.of_find (h : PolicyStored rules w) {found : PasswordPolicy}
    (hfind : Exec sem PasswordPolicy.find w (.ok found) w') : found = rules := by
  rcases exec_cached hfind with ⟨v, hv, hpolicy, -⟩ | ⟨w₁, w₂, hw, hload, -⟩
  · rw [h.cached v hv] at hpolicy
    exact (Option.some.inj hpolicy).symm
  · obtain ⟨hhead, -⟩ := exec_fetchOne.mp hload
    have hdb : w₁.db .passwordPolicy = [rules] := by
      rcases hw with rfl | rfl
      · exact h.row
      · exact h.row
    rw [hdb] at hhead
    exact (Option.some.inj hhead).symm

theorem PolicyStored.find (h : PolicyStored rules w) :
    ∃ w', Exec sem PasswordPolicy.find w (.ok rules) w' ∧ w'.db = w.db := by
  have hload : Exec sem (fetchOne .passwordPolicy fun _ => true) (w.del .c12hr "password_rules_")
      (.ok rules) (w.del .c12hr "password_rules_") := by
    refine exec_fetchOne.mpr ⟨?_, rfl⟩
    rw [World.del_db, h.row]
    rfl
  exact ⟨_, exec_cached_load hload, rfl⟩

theorem NoHistory.commits (hu : NoHistory w u) (newHash : String) :
    Commits [.insert .recentPasswords ⟨u.id, newHash⟩] w.db (Function.update w.db .recentPasswords
      (w.db .recentPasswords ++ [⟨u.id, newHash⟩])) := by
  refine .of_insert (by decide) fun r hr => ?_
  exact beq_eq_false_iff_ne.mpr fun hid => hu r hr hid.symm

theorem exists_recentCreated (hu : NoHistory w u) (plain newHash : String)
    (recentReq : Option Int) :
    ∃ w', Exec sem (forEach (u.updateRecent data plain newHash) recentReq.toList) w (.ok ()) w' := by
  rcases recentReq with - | n
  · exact ⟨w, rfl, rfl⟩
  have hnone : (w.db .recentPasswords).filter (fun r => r.userId == u.id) = [] := by
    rw [List.filter_eq_nil_iff]
    intro r hr heq
    exact hu r hr (beq_iff_eq.mp heq)
  have hfind : Exec sem (RecentPasswordsEntity.find u.id) w
      (.error (.err ⟨.notFound, "not found"⟩)) w := by
    refine exec_bind.mpr (.inr ⟨_, _, exec_select.mpr ⟨rfl, rfl⟩, ?_⟩)
    rw [hnone]
    exact ⟨rfl, rfl⟩
  have hcreate : Exec sem (RecentPasswordsEntity.create u.id newHash) w (.ok ()) _ :=
    exec_execute.mpr ⟨_, hu.commits newHash, rfl⟩
  have hone : Exec sem (u.updateRecent data plain newHash n) w (.ok ()) _ :=
    exec_bind_ok.mpr ⟨.error ⟨.notFound, "not found"⟩, w, exec_tried.mpr hfind, hcreate⟩
  exact ⟨_, exec_bind_ok.mpr ⟨(), _, hone, rfl, rfl⟩⟩

theorem exists_newPasswordExpires (u : User) (rules : PasswordPolicy) (w : World) :
    ∃ expires w', Exec sem (u.newPasswordExpires data rules) w (.ok expires) w' := by
  rw [User.newPasswordExpires]
  split
  · exact ⟨none, w, rfl, rfl⟩
  · split
    · exact ⟨none, w, rfl, rfl⟩
    · exact ⟨_, _, exec_bind_ok.mpr
        ⟨_, _, exec_unixTimestamp.mpr ⟨w.clock, rfl, le_rfl, rfl⟩, rfl, rfl⟩⟩

/-- A password that meets the policy is accepted once its row can be written. -/
theorem accepted_of_recent (h : PolicyStored rules w)
    (hcheck : User.checkPolicy data rules plain = .ok ())
    (hrecent : ∀ w₁, w₁.db = w.db → ∃ w₂, Exec sem (forEach (u.updateRecent data plain "hash")
      rules.notRecentlyUsed.toList) w₁ (.ok ()) w₂) : PasswordAccepted data w u plain := by
  obtain ⟨w₁, hfind, hdb⟩ := h.find
  have hhash : Exec sem (call (.hashPassword plain) answer : M ErrorResponse String) w₁
      (.ok "hash") w₁ := exec_call.mpr ⟨.ok "hash", w₁, ⟨.rand "hash", rfl⟩, rfl, rfl⟩
  obtain ⟨w₂, hrecent⟩ := hrecent w₁ hdb
  obtain ⟨expires, w₃, hexpires⟩ := exists_newPasswordExpires u rules w₂
  refine ⟨{ u with password := some "hash", passwordExpires := expires }, w₃,
    exec_bind_ok.mpr ⟨rules, w₁, hfind, ?_⟩⟩
  refine exec_bind_ok.mpr ⟨(), w₁, exec_answer.mpr ⟨hcheck, rfl⟩, ?_⟩
  refine exec_bind_ok.mpr ⟨"hash", w₁, hhash, exec_bind_ok.mpr ⟨(), w₂, hrecent, ?_⟩⟩
  exact exec_bind_ok.mpr ⟨expires, w₃, hexpires, rfl, rfl⟩

/-- What the policy asks of a password is all that the rules ask of it. -/
theorem passwordAccepted_iff (h : PolicyStored rules w) (hu : NoHistory w u) :
    PasswordAccepted data w u plain ↔ User.checkPolicy data rules plain = .ok () := by
  constructor
  · rintro ⟨u', w', hx⟩
    obtain ⟨found, w₁, hfind, hx⟩ := exec_bind_ok.mp hx
    obtain ⟨_, w₂, hcheck, -⟩ := exec_bind_ok.mp hx
    rw [h.of_find hfind] at hcheck
    exact (exec_answer.mp hcheck).1
  · intro hcheck
    refine accepted_of_recent h hcheck fun w₁ hdb => ?_
    have hu₁ : NoHistory w₁ u := by
      rw [NoHistory, hdb]
      exact hu
    exact exists_recentCreated hu₁ plain "hash" rules.notRecentlyUsed

/-! ### Policies that can be met -/

/-- A password with the required numbers of letters, digits and special characters, and with
more lower case letters if it has to be longer. -/
def meeting (rules : PasswordPolicy) : List Char :=
  List.replicate ((rules.includeLowerCase.getD 0).toNat +
      (rules.lengthMin - rules.required).toNat) 'a' ++
    (List.replicate (rules.includeUpperCase.getD 0).toNat 'A' ++
      (List.replicate (rules.includeDigits.getD 0).toNat '0' ++
        List.replicate (rules.includeSpecial.getD 0).toNat '!'))

/-- No number in the policy is negative, and a password may be as long as the policy says. -/
structure PasswordPolicy.Nonneg (rules : PasswordPolicy) : Prop where
  min : 0 ≤ rules.lengthMin
  max : rules.lengthMax ≤ 256
  lower : 0 ≤ rules.includeLowerCase.getD 0
  upper : 0 ≤ rules.includeUpperCase.getD 0
  digits : 0 ≤ rules.includeDigits.getD 0
  special : 0 ≤ rules.includeSpecial.getD 0

theorem length_meeting (h : rules.Nonneg) :
    ((meeting rules).length : Int) = max rules.lengthMin rules.required := by
  have hlower := h.lower
  have hupper := h.upper
  have hdigits := h.digits
  have hspecial := h.special
  simp only [meeting, List.length_append, List.length_replicate, PasswordPolicy.required]
  push_cast
  omega

theorem len_meeting (rules : PasswordPolicy) :
    Text.len (String.ofList (meeting rules)) = (meeting rules).length := by
  have hascii : ∀ c ∈ (String.ofList (meeting rules)).toList, c.utf8Size = 1 := by
    intro c hc
    simp only [String.toList_ofList, meeting, List.mem_append, List.mem_replicate] at hc
    rcases hc with ⟨-, rfl⟩ | ⟨-, rfl⟩ | ⟨-, rfl⟩ | ⟨-, rfl⟩ <;> rfl
  rw [Text.len_of_ascii hascii, String.toList_ofList]

theorem count_meeting (h : rules.Nonneg) :
    rules.includeLowerCase.getD 0 ≤ (meeting rules).count 'a' ∧
    rules.includeUpperCase.getD 0 ≤ (meeting rules).count 'A' ∧
    rules.includeDigits.getD 0 ≤ (meeting rules).count '0' ∧
    rules.includeSpecial.getD 0 ≤ (meeting rules).count '!' := by
  have hlower := h.lower
  have hupper := h.upper
  have hdigits := h.digits
  have hspecial := h.special
  simp only [meeting, List.count_append, List.count_replicate]
  simp
  omega

theorem meets_meeting (hclasses : AsciiClasses data) (h : rules.Nonneg)
    (hlen : rules.lengthMin ≤ rules.lengthMax) (hreq : rules.required ≤ rules.lengthMax) :
    User.Meets data rules (String.ofList (meeting rules)) := by
  have hlength := length_meeting h
  obtain ⟨hlower, hupper, hdigits, hspecial⟩ := count_meeting h
  have hadd := User.CharCounts.add_ascii hclasses
  have hcounts : User.charCounts data (String.ofList (meeting rules)) =
      (meeting rules).foldl (User.CharCounts.add data) ⟨0, 0, 0, 0⟩ := by
    rw [User.charCounts, String.toList_ofList]
  have hlow := @User.CharCounts.count_le data User.CharCounts.lower 'a' User.CharCounts.lower_le
    (fun n => congrArg User.CharCounts.lower (hadd n).1) ⟨0, 0, 0, 0⟩ (meeting rules)
  have hupp := @User.CharCounts.count_le data User.CharCounts.upper 'A' User.CharCounts.upper_le
    (fun n => congrArg User.CharCounts.upper (hadd n).2.1) ⟨0, 0, 0, 0⟩ (meeting rules)
  have hdig := @User.CharCounts.count_le data User.CharCounts.digit '0' User.CharCounts.digit_le
    (fun n => congrArg User.CharCounts.digit (hadd n).2.2.1) ⟨0, 0, 0, 0⟩ (meeting rules)
  have hspe := @User.CharCounts.count_le data User.CharCounts.special '!'
    User.CharCounts.special_le (fun n => congrArg User.CharCounts.special (hadd n).2.2.2)
    ⟨0, 0, 0, 0⟩ (meeting rules)
  rw [← hcounts] at hlow hupp hdig hspe
  dsimp only at hlow hupp hdig hspe
  have hlenBytes := len_meeting rules
  exact ⟨by omega, by omega, by omega, by omega, by omega, by omega⟩

theorem inRange_iff {min max : Int} {value : Option Int} :
    inRange min max value = true ↔ ∀ n, value = some n → min ≤ n ∧ n ≤ max := by
  rcases value with - | n
  · simp [inRange]
  · simp [inRange]

theorem getD_nonneg {value : Option Int} (h : inRange 1 32 value = true) : 0 ≤ value.getD 0 := by
  rcases value with - | n
  · exact le_rfl
  · have hn := (inRange_iff.mp h n rfl).1
    exact (by omega : 0 ≤ n)

theorem PasswordPolicyRequest.nonneg_of_validate (h : req.validate = true) :
    (rules.applyReq req).Nonneg := by
  simp only [PasswordPolicyRequest.validate, Bool.and_eq_true] at h
  obtain ⟨⟨⟨⟨⟨⟨⟨hmin, hmax⟩, hlower⟩, hupper⟩, hdigits⟩, hspecial⟩, -⟩, -⟩ := h
  have hmin' := inRange_iff.mp hmin _ rfl
  have hmax' := inRange_iff.mp hmax _ rfl
  exact ⟨by show 0 ≤ req.lengthMin; omega, by show req.lengthMax ≤ 256; omega, getD_nonneg hlower,
    getD_nonneg hupper, getD_nonneg hdigits, getD_nonneg hspecial⟩

theorem policyStored_of_put (hrow : (w.db .passwordPolicy).length = 1)
    (h : Exec sem (putPasswordPolicy req) w (.ok rules) w') :
    PolicyStored rules w' ∧ rules = rules.applyReq req := by
  obtain ⟨found, w₁, hfind, h⟩ := exec_bind_ok.mp h
  obtain ⟨_, w₂, hsave, hret⟩ := exec_bind_ok.mp h
  obtain ⟨hrules, rfl⟩ := exec_ret.mp hret
  obtain rfl := Except.ok.inj hrules
  obtain ⟨_, w₃, hupdate, hput⟩ := exec_bind_ok.mp hsave
  obtain ⟨db, hcommits, rfl⟩ := exec_execute.mp hupdate
  rw [exec_cachePut.mp hput]
  have hdb : w₁.db = w.db := by
    rcases exec_cached hfind with ⟨-, -, -, rfl⟩ | ⟨w₂, w₃, hw, hload, rfl⟩
    · rfl
    · obtain ⟨-, rfl⟩ := exec_fetchOne.mp hload
      rcases hw with rfl | rfl
      · rfl
      · rfl
  have hrows : db .passwordPolicy = (w₁.db .passwordPolicy).map fun _ => found.applyReq req := by
    have happly := hcommits.applied
    simp only [applyAll, DbWrite.apply, Option.bind_some, Option.some.injEq, if_true] at happly
    rw [← happly, Function.update_self]
  refine ⟨⟨?_, fun v hv => ?_⟩, rfl⟩
  · obtain ⟨p, hp⟩ := List.length_eq_one_iff.mp hrow
    show db .passwordPolicy = [found.applyReq req]
    rw [hrows, hdb, hp, List.map_singleton]
  · rw [World.put_cache, if_pos ⟨rfl, rfl⟩] at hv
    exact (Option.some.inj hv).symm

/-- The number of characters that the request requires. -/
def PasswordPolicyRequest.required (req : PasswordPolicyRequest) : Int :=
  req.includeLowerCase.getD 0 + req.includeUpperCase.getD 0 + req.includeDigits.getD 0 +
    req.includeSpecial.getD 0

/-- What a password has to be once an admin has set the policy. -/
theorem passwordAccepted_iff_meets (hvalid : req.validate = true)
    (hrow : (w.db .passwordPolicy).length = 1)
    (hput : Exec sem (putPasswordPolicy req) w (.ok rules) w') (hu : NoHistory w' u) :
    PasswordAccepted data w' u plain ↔ User.Meets data (rules.applyReq req) plain := by
  obtain ⟨hstored, hrules⟩ := policyStored_of_put hrow hput
  simp only [PasswordPolicyRequest.validate, Bool.and_eq_true] at hvalid
  obtain ⟨⟨⟨⟨⟨⟨⟨hmin, hmax⟩, -⟩, -⟩, -⟩, -⟩, -⟩, -⟩ := hvalid
  have hmin' := inRange_iff.mp hmin _ rfl
  have hmax' := inRange_iff.mp hmax _ rfl
  rw [hrules] at hstored
  rw [passwordAccepted_iff hstored hu]
  exact User.checkPolicy_iff ⟨by show 0 ≤ req.lengthMin; omega, by show req.lengthMin < _; omega⟩
    ⟨by show 0 ≤ req.lengthMax; omega, by show req.lengthMax < _; omega⟩

/-- **When a policy admits a password at all**: its bounds are in order, and what it requires fits
into the maximum length. -/
theorem policy_satisfiable_iff (hclasses : AsciiClasses data) {req : PasswordPolicyRequest}
    (hvalid : req.validate = true) (hrow : (w.db .passwordPolicy).length = 1)
    (hput : Exec sem (putPasswordPolicy req) w (.ok rules) w') (hu : NoHistory w' u) :
    (∃ plain, plain.length ≤ 256 ∧ PasswordAccepted data w' u plain) ↔
      req.lengthMin ≤ req.lengthMax ∧ req.required ≤ req.lengthMax := by
  simp only [passwordAccepted_iff_meets hvalid hrow hput hu]
  have hrequired : (rules.applyReq req).required = req.required := rfl
  constructor
  · rintro ⟨plain, -, hmeets⟩
    have hmin : req.lengthMin ≤ Text.len plain := hmeets.min
    have hmax : Text.len plain ≤ req.lengthMax := hmeets.max
    have htotal := @User.total_charCounts data plain
    have hcounts : (rules.applyReq req).required ≤ (User.charCounts data plain).total :=
      Int.add_le_add (Int.add_le_add (Int.add_le_add hmeets.lower hmeets.upper) hmeets.digit)
        hmeets.special
    exact ⟨by omega, by omega⟩
  · rintro ⟨hlen, hreq⟩
    have hnonneg : (rules.applyReq req).Nonneg := PasswordPolicyRequest.nonneg_of_validate hvalid
    have hmeets := meets_meeting hclasses hnonneg hlen hreq
    refine ⟨_, ?_, hmeets⟩
    have hlenBytes := len_meeting (rules.applyReq req)
    have hmax := hmeets.max.trans hnonneg.max
    rw [← String.length_toList, String.toList_ofList]
    omega

/-- A request that sets the two bounds and nothing else -/
def boundsRequest (lengthMin lengthMax : Int) : PasswordPolicyRequest where
  lengthMin := lengthMin
  lengthMax := lengthMax
  includeLowerCase := none
  includeUpperCase := none
  includeDigits := none
  includeSpecial := none
  validDays := none
  notRecentlyUsed := none

/-- A policy and nothing else in the database -/
def policyWorld : World where
  clock := 0
  issued := []
  db
    | .passwordPolicy => [default]
    | _ => []
  cache _ _ := none

theorem asciiClasses_sampleState : AsciiClasses sampleState where
  lower _ _ := rfl
  upper _ _ := rfl
  alphanumeric _ _ := rfl

theorem exists_put (req : PasswordPolicyRequest) (u : User) : ∃ rules w',
    Exec sem (putPasswordPolicy req) policyWorld (.ok rules) w' ∧ NoHistory w' u := by
  have hload : Exec sem (fetchOne .passwordPolicy fun _ => true)
      (policyWorld.del .c12hr "password_rules_") (.ok default)
      (policyWorld.del .c12hr "password_rules_") := exec_fetchOne.mpr ⟨rfl, rfl⟩
  have hfind : Exec sem PasswordPolicy.find policyWorld (.ok default)
      ((policyWorld.del .c12hr "password_rules_").put .c12hr "password_rules_" (.policy default)) :=
    exec_cached_load hload
  have hsave : Exec sem ((default : PasswordPolicy).applyReq req).save
      ((policyWorld.del .c12hr "password_rules_").put .c12hr "password_rules_" (.policy default))
      (.ok ()) _ :=
    exec_bind_ok.mpr ⟨(), _, exec_execute.mpr ⟨_, Commits.of_emails rfl rfl, rfl⟩,
      exec_cachePut.mpr rfl⟩
  refine ⟨_, _, exec_bind_ok.mpr ⟨_, _, hfind, exec_bind_ok.mpr ⟨(), _, hsave, rfl, rfl⟩⟩, ?_⟩
  exact fun _ h => absurd h List.not_mem_nil

theorem policy_satisfiable_iff_bounds : ∃ rules w',
    Exec sem (putPasswordPolicy (boundsRequest 8 64)) policyWorld (.ok rules) w' ∧
    ∃ plain, plain.length ≤ 256 ∧ PasswordAccepted sampleState w' sampleUser plain := by
  obtain ⟨rules, w', hput, hu⟩ := exists_put (boundsRequest 8 64) sampleUser
  have hiff := policy_satisfiable_iff asciiClasses_sampleState (by decide) rfl hput hu
  exact ⟨rules, w', hput, hiff.mpr (by decide)⟩

/-- The minimum length may be set above the maximum. -/
theorem min_above_max :
    ¬ ∀ (data : AppState) (req : PasswordPolicyRequest) (rules : PasswordPolicy) (w w' : World)
      (u : User), AsciiClasses data → req.validate = true → (w.db .passwordPolicy).length = 1 →
      Exec sem (putPasswordPolicy req) w (.ok rules) w' → NoHistory w' u →
      ∃ plain, plain.length ≤ 256 ∧ PasswordAccepted data w' u plain := by
  intro hall
  obtain ⟨rules, w', hput, hu⟩ := exists_put (boundsRequest 9 8) sampleUser
  obtain ⟨plain, -, haccepted⟩ := hall sampleState _ _ _ _ sampleUser asciiClasses_sampleState
    (by decide) rfl hput hu
  have hmeets := (passwordAccepted_iff_meets (by decide) rfl hput hu).mp haccepted
  have hmin : (9 : Int) ≤ Text.len plain := hmeets.min
  have hmax : (Text.len plain : Int) ≤ 8 := hmeets.max
  omega

end Rauthy
