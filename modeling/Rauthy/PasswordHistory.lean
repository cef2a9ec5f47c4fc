/-
Rauthy/PasswordHistory.lean

The recent passwords of a user, over any number of changes under one policy.  The loop of
`apply_password_rules` counts from 1 and stops when the counter is the number of the policy, before
the next hash: it looks at one hash less than the policy says, and at all of them if the policy
says 1.

Main results:
  * `checkRecent_eq`, what the loop compares and keeps;
  * `Changed.history`, what is stored after any changes;
  * `history_kept_iff`, when a change is treated as the policy says;
  * `last_password_reused`: the second last password, under a policy of 2.
-/
import Rauthy.PasswordPolicies

namespace Rauthy

open Prog

/-! ### Changes -/

/-- Hashes are compared exactly: they match the password that they were made of, and no other. -/
structure ExactHashes (data : AppState) (isHash : String → String → Prop) : Prop where
  compare : ∀ plain plain' hash, isHash plain' hash →
    data.comparePasswords plain hash = .ok (decide (plain = plain'))
  line : ∀ plain hash, isHash plain hash → '\n' ∉ hash.toList

/-- The rows of the recent passwords of a user. -/
def recentRows (w : World) (uid : String) : List RecentPasswordsEntity :=
  (w.db .recentPasswords).filter fun r => r.userId == uid

/-- The passwords that the user `uid` has had under the policy, the newest first. -/
inductive Changed (data : AppState) (isHash : String → String → Prop) (rules : PasswordPolicy)
    (uid : String) : List String → World → Prop
  | new {w : World} (h : recentRows w uid = []) : Changed data isHash rules uid [] w
  | change {used : List String} {w w' : World} {u u' : User} {plain : String}
      (h : Changed data isHash rules uid used w) (hrules : PolicyStored rules w) (hid : u.id = uid)
      (hx : Exec sem (u.applyPasswordRules data plain) w (.ok u') w')
      (hhash : ∀ hash, u'.password = some hash → isHash plain hash) :
      Changed data isHash rules uid (plain :: used) w'
  | other {used : List String} {w w' : World} (h : Changed data isHash rules uid used w)
      (hrows : recentRows w' uid = recentRows w uid) : Changed data isHash rules uid used w'

/-- What the policy promises of the next change, and of what is stored. -/
structure HistoryKept (data : AppState) (rules : PasswordPolicy) (n : ℕ) (u : User)
    (used : List String) (plain : String) (w : World) : Prop where
  rejects : plain ∈ used.take n → ¬ PasswordAccepted data w u plain
  accepts : plain ∉ used.take n → User.checkPolicy data rules plain = .ok () →
    PasswordAccepted data w u plain
  bounded : ∀ r ∈ recentRows w u.id, (Text.split '\n' r.passwords).length ≤ n

/-! ### The loop -/

/-- What the loop looks at: all of the list for 1, else one element less than the number. -/
def compared {α : Type} (n : ℕ) (l : List α) : List α := if n = 1 then l else l.take (n - 1)

section Loop

variable {data : AppState} {isHash : String → String → Prop} {plain : String} {n : ℕ}
  {used hashes : List String}

/-- The error of the loop. -/
def recentlyUsed (n : ℕ) : ErrorResponse :=
  ⟨.badRequest, "The new password must not be one of the last " ++ toString (n : Int) ++
    " used passwords"⟩

theorem checkRecent_cons (h : ExactHashes data isHash) {p hash : String} (hp : isHash p hash)
    (i : Int) (rest : List String) :
    User.checkRecent data plain n i (hash :: rest) =
      if plain = p then .error (recentlyUsed n)
      else if i + 1 = n then .ok [hash]
      else (User.checkRecent data plain n (i + 1) rest).map (hash :: ·) := by
  rw [User.checkRecent, h.compare plain p hash hp]
  by_cases hplain : plain = p
  · rw [if_pos hplain, hplain, decide_eq_true rfl]
    rfl
  · rw [if_neg hplain, decide_eq_false hplain]
    by_cases hi : i + 1 = n
    · rw [if_pos hi, if_pos hi]
      rfl
    · rw [if_neg hi, if_neg hi]
      cases User.checkRecent data plain n (i + 1) rest <;> rfl

theorem checkRecent_all (h : ExactHashes data isHash) (hhashes : List.Forall₂ isHash used hashes)
    {i : Int} (hi : (n : Int) ≤ i) :
    User.checkRecent data plain n i hashes =
      if plain ∈ used then .error (recentlyUsed n) else .ok hashes := by
  induction hhashes generalizing i with
  | nil => rfl
  | @cons p hash used hashes hp _ ih =>
      rw [checkRecent_cons h hp, ih (by omega), if_neg (show ¬ i + 1 = n by omega)]
      by_cases hplain : plain = p
      · rw [if_pos hplain, if_pos (by rw [hplain]; exact List.mem_cons_self)]
      · rw [if_neg hplain]
        by_cases hmem : plain ∈ used
        · rw [if_pos hmem, if_pos (List.mem_cons_of_mem _ hmem)]
          rfl
        · rw [if_neg hmem, if_neg fun h => (List.mem_cons.mp h).elim hplain hmem]
          rfl

/-- The counter reaches the number after `m` elements. -/
theorem checkRecent_take (h : ExactHashes data isHash) (hhashes : List.Forall₂ isHash used hashes)
    {i : Int} {m : ℕ} (hm : i + (m + 1 : ℕ) = n) :
    User.checkRecent data plain n i hashes =
      if plain ∈ used.take (m + 1) then .error (recentlyUsed n) else .ok (hashes.take (m + 1)) := by
  induction hhashes generalizing i m with
  | nil => rfl
  | @cons p hash used hashes hp _ ih =>
      rw [checkRecent_cons h hp, List.take_succ_cons, List.take_succ_cons]
      by_cases hplain : plain = p
      · rw [if_pos hplain, if_pos (by rw [hplain]; exact List.mem_cons_self)]
      · rw [if_neg hplain]
        rcases m with - | m
        · rw [if_pos (by omega), if_neg fun h => (List.mem_cons.mp h).elim hplain (by simp)]
          rfl
        · rw [if_neg (by omega), ih (m := m) (by omega)]
          by_cases hmem : plain ∈ used.take (m + 1)
          · rw [if_pos hmem, if_pos (List.mem_cons_of_mem _ hmem)]
            rfl
          · rw [if_neg hmem, if_neg fun h => (List.mem_cons.mp h).elim hplain hmem]
            rfl

/-- **What the loop compares and keeps.** -/
theorem checkRecent_eq (h : ExactHashes data isHash) (hhashes : List.Forall₂ isHash used hashes)
    (hn : 1 ≤ n) :
    User.checkRecent data plain n 1 hashes =
      if plain ∈ compared n used then .error (recentlyUsed n) else .ok (compared n hashes) := by
  unfold compared
  by_cases hone : n = 1
  · rw [if_pos hone, if_pos hone]
    exact checkRecent_all h hhashes (by omega)
  · obtain ⟨m, rfl⟩ : ∃ m, n = m + 2 := ⟨n - 2, by omega⟩
    rw [if_neg hone, if_neg hone]
    exact checkRecent_take h hhashes (by omega)

end Loop

/-! ### What is stored -/

/-- The passwords whose hashes are stored. -/
def stored {α : Type} (n : ℕ) (l : List α) : List α := if n = 1 then l else l.take n

/-- The row of the hashes, if there are some. -/
def historyRow (uid : String) : List String → List RecentPasswordsEntity
  | [] => []
  | hash :: hashes => [⟨uid, Text.join "\n" (hash :: hashes)⟩]

/-- The hashes of the stored passwords are the row of the user. -/
structure History (isHash : String → String → Prop) (n : ℕ) (uid : String) (used : List String)
    (hashes : List String) (w : World) : Prop where
  hashed : List.Forall₂ isHash (stored n used) hashes
  rows : recentRows w uid = historyRow uid hashes

section Stored

variable {α : Type} {n : ℕ}
  {l : List α}

theorem compared_nil : compared n ([] : List α) = [] := by
  unfold compared
  split
  · rfl
  · exact List.take_nil

theorem compared_stored (l : List α) : compared n (stored n l) = compared n l := by
  unfold compared stored
  split
  · rfl
  · rw [List.take_take, Nat.min_eq_left (Nat.sub_le n 1)]

theorem stored_cons (hn : 1 ≤ n) (a : α) (l : List α) :
    stored n (a :: l) = a :: compared n (stored n l) := by
  rw [compared_stored]
  unfold compared stored
  by_cases hone : n = 1
  · rw [if_pos hone, if_pos hone]
  · obtain ⟨m, rfl⟩ : ∃ m, n = m + 1 := ⟨n - 1, by omega⟩
    rw [if_neg hone, if_neg hone, List.take_succ_cons, Nat.add_sub_cancel]

theorem stored_eq_nil (hn : 1 ≤ n) (h : stored n l = []) : l = [] := by
  rcases l with - | ⟨a, l⟩
  · rfl
  · rw [stored_cons hn] at h
    cases h

theorem compared_ne_nil (hn : 1 ≤ n) (hl : l ≠ []) : compared n l ≠ [] := by
  unfold compared
  split
  · exact hl
  · next hone =>
      rw [Ne, List.take_eq_nil_iff, not_or]
      exact ⟨by omega, hl⟩

theorem Forall₂.compared {β : Type} {R : α → β → Prop} {l' : List β} (h : List.Forall₂ R l l') :
    List.Forall₂ R (compared n l) (compared n l') := by
  unfold Rauthy.compared
  split
  · exact h
  · exact List.forall₂_take _ h

end Stored

/-! ### One change -/

section Change

variable {data : AppState} {isHash : String → String → Prop} {rules : PasswordPolicy} {n : ℕ}
  {u u' : User} {used hashes : List String} {plain newHash : String} {w w' : World}

theorem exec_create (hrows : recentRows w u.id = [])
    (hx : Exec sem (RecentPasswordsEntity.create u.id newHash) w (.ok ()) w') :
    recentRows w' u.id = [⟨u.id, newHash⟩] := by
  obtain ⟨db, hcommits, rfl⟩ := exec_execute.mp hx
  have happlied := hcommits.applied
  rw [applyAll, DbWrite.apply] at happlied
  split at happlied
  · cases happlied
  · cases happlied
    unfold recentRows
    dsimp only
    rw [Function.update_self, List.filter_append]
    show recentRows w u.id ++ _ = _
    rw [hrows, List.nil_append]
    exact List.filter_cons_of_pos (beq_iff_eq.mpr rfl)

theorem not_exec_create {row : RecentPasswordsEntity} (hrow : row ∈ recentRows w u.id) :
    ¬ Exec sem (RecentPasswordsEntity.create u.id newHash) w (.ok ()) w' := by
  intro hx
  obtain ⟨hmem, hid⟩ := List.mem_filter.mp hrow
  obtain ⟨db, hcommits, -⟩ := exec_execute.mp hx
  have happlied := hcommits.applied
  have hany : (w.db .recentPasswords).any
      (conflicts .recentPasswords ⟨u.id, newHash⟩) = true :=
    List.any_eq_true.mpr ⟨row, hmem, beq_iff_eq.mpr (beq_iff_eq.mp hid).symm⟩
  rw [applyAll, DbWrite.apply, if_pos hany] at happlied
  cases happlied

theorem exec_saveRecent {passwords old : String} (hrows : recentRows w u.id = [⟨u.id, old⟩])
    (hx : Exec sem (RecentPasswordsEntity.save ⟨u.id, passwords⟩) w (.ok ()) w') :
    recentRows w' u.id = [⟨u.id, passwords⟩] := by
  obtain ⟨db, hcommits, rfl⟩ := exec_execute.mp hx
  have happlied := hcommits.applied
  cases happlied
  unfold recentRows at hrows ⊢
  dsimp only
  rw [Function.update_self]
  refine (filter_map_update (fun r : RecentPasswordsEntity => r.userId == u.id)
    (fun r => { r with passwords }) (fun _ => rfl) _).trans ?_
  rw [hrows]
  rfl

theorem History.split (h : ExactHashes data isHash) (hw : History isHash n u.id used hashes w)
    (hne : hashes ≠ []) : Text.split '\n' (Text.join "\n" hashes) = hashes := by
  refine Text.split_join hne fun hash hmem => ?_
  obtain ⟨plain, hplain⟩ : ∃ plain, isHash plain hash := by
    obtain ⟨i, hi, rfl⟩ := List.getElem_of_mem hmem
    exact ⟨_, hw.hashed.get (by rw [hw.hashed.length_eq]; exact hi) hi⟩
  exact h.line plain hash hplain

/-- **One change**: the new password is none of those that are compared, and its hash is stored
before theirs. -/
theorem History.updateRecent (h : ExactHashes data isHash) (hn : 1 ≤ n)
    (hw : History isHash n u.id used hashes w)
    (hx : Exec sem (u.updateRecent data plain newHash n) w (.ok ()) w') :
    plain ∉ compared n used ∧
      recentRows w' u.id = historyRow u.id (newHash :: compared n hashes) := by
  obtain ⟨x, w₁, hfind, hrest⟩ := exec_bind_ok.mp hx
  have hw₁ : w₁ = w := exec_fetchOne_world (exec_tried.mp hfind)
  rw [hw₁] at hrest hfind
  rcases hashes with - | ⟨hash, hashes⟩
  · have hnil := stored_eq_nil hn (List.forall₂_nil_right_iff.mp hw.hashed)
    rcases x with e | row
    · rw [hnil, compared_nil]
      exact ⟨List.not_mem_nil, exec_create hw.rows hrest⟩
    · have hhead := (exec_fetchOne.mp (exec_tried.mp hfind)).1
      change (recentRows w u.id).head? = _ at hhead
      rw [hw.rows] at hhead
      cases hhead
  · have hrow : recentRows w u.id = [⟨u.id, Text.join "\n" (hash :: hashes)⟩] := hw.rows
    rcases x with e | row
    · exact absurd hrest (not_exec_create (by rw [hrow]; exact List.mem_singleton_self _))
    · have hhead := (exec_fetchOne.mp (exec_tried.mp hfind)).1
      change (recentRows w u.id).head? = _ at hhead
      rw [hrow] at hhead
      cases hhead
      obtain ⟨kept, w₂, hkept, hsave⟩ := exec_bind_ok.mp hrest
      obtain ⟨hloop, rfl⟩ := exec_answer.mp hkept
      have hread := hw.split h (List.cons_ne_nil _ _)
      rw [hread, checkRecent_eq h hw.hashed hn, compared_stored] at hloop
      by_cases hplain : plain ∈ compared n used
      · rw [if_pos hplain] at hloop
        cases hloop
      · rw [if_neg hplain] at hloop
        cases hloop
        refine ⟨hplain, ?_⟩
        rw [exec_saveRecent hrow hsave]
        have hkept : compared n (hash :: hashes) ≠ [] := compared_ne_nil hn (List.cons_ne_nil _ _)
        obtain ⟨k, ks, hks⟩ := List.exists_cons_of_ne_nil hkept
        rw [hks]
        rfl

theorem exec_applyPasswordRules (hrules : PolicyStored rules w)
    (hrecent : rules.notRecentlyUsed = some (n : Int))
    (hx : Exec sem (u.applyPasswordRules data plain) w (.ok u') w') :
    User.checkPolicy data rules plain = .ok () ∧ ∃ newHash w₁ w₂,
      u'.password = some newHash ∧ w₁.db = w.db ∧
      Exec sem (u.updateRecent data plain newHash n) w₁ (.ok ()) w₂ ∧ w'.db = w₂.db := by
  obtain ⟨found, w₁, hfind, hx⟩ := exec_bind_ok.mp hx
  obtain ⟨_, w₂, hcheck, hx⟩ := exec_bind_ok.mp hx
  obtain ⟨newHash, w₃, hhash, hx⟩ := exec_bind_ok.mp hx
  obtain ⟨_, w₄, hloop, hx⟩ := exec_bind_ok.mp hx
  obtain ⟨expires, w₅, hexpires, hret⟩ := exec_bind_ok.mp hx
  obtain ⟨hu', rfl⟩ := exec_ret.mp hret
  cases hu'
  have hpolicy := hrules.of_find hfind
  subst hpolicy
  obtain ⟨hok, rfl⟩ := exec_answer.mp hcheck
  rw [hrecent] at hloop
  obtain ⟨_, w₆, hone, hdone⟩ := exec_bind_ok.mp hloop
  obtain ⟨-, rfl⟩ := exec_ret.mp hdone
  have hdb₁ : w₂.db = w.db :=
    funext fun t => (PasswordPolicy.find_touches.frame hfind).db t List.not_mem_nil
  have hdb₃ : w₃.db = w₂.db := by
    obtain ⟨x, w₇, ⟨c, hc⟩, hanswer⟩ := hhash
    rw [(exec_answer.mp hanswer).2]
    cases c <;> cases hc <;> rfl
  have hdb₅ : w'.db = w₄.db := by
    have ht := u.newPasswordExpires_touches data found
    exact funext fun t => (ht.frame hexpires).db t List.not_mem_nil
  exact ⟨hok, newHash, w₃, w₄, rfl, hdb₃.trans hdb₁, hone, hdb₅⟩

theorem History.of_db (hw : History isHash n u.id used hashes w) (h : w'.db = w.db) :
    History isHash n u.id used hashes w' where
  hashed := hw.hashed
  rows := by
    rw [recentRows, h]
    exact hw.rows

/-- **What is stored after any changes**: the hashes of the newest passwords, as many as the policy
says, or all of them if it says 1. -/
theorem Changed.history (h : ExactHashes data isHash) (hn : 1 ≤ n)
    (hrecent : rules.notRecentlyUsed = some (n : Int)) {uid : String}
    (hw : Changed data isHash rules uid used w) : ∃ hashes, History isHash n uid used hashes w := by
  induction hw with
  | new h =>
      refine ⟨[], ?_, h⟩
      unfold stored
      split
      · exact .nil
      · rw [List.take_nil]
        exact .nil
  | @change used w w' u u' plain hch hrules hid hx hhash ih =>
      subst hid
      obtain ⟨hashes, hw⟩ := ih
      obtain ⟨-, newHash, w₁, w₂, hnew, hdb₁, hone, hdb₂⟩ :=
        exec_applyPasswordRules hrules hrecent hx
      obtain ⟨-, hrows⟩ := (hw.of_db hdb₁).updateRecent h hn hone
      refine ⟨newHash :: compared n hashes, ?_, ?_⟩
      · rw [stored_cons hn]
        exact .cons (hhash newHash hnew) (Forall₂.compared hw.hashed)
      · rw [recentRows, hdb₂]
        exact hrows
  | other _ hrows ih =>
      obtain ⟨hashes, hw⟩ := ih
      exact ⟨hashes, hw.hashed, hrows.trans hw.rows⟩

/-- A password that is none of those that are compared gets through. -/
theorem History.exists_updateRecent (h : ExactHashes data isHash) (hn : 1 ≤ n)
    (hw : History isHash n u.id used hashes w) (hplain : plain ∉ compared n used) :
    ∃ w', Exec sem (u.updateRecent data plain newHash n) w (.ok ()) w' := by
  rcases hashes with - | ⟨hash, hashes⟩
  · have hnone : NoHistory w u := by
      intro r hr hid
      have hmem : r ∈ recentRows w u.id := List.mem_filter.mpr ⟨hr, beq_iff_eq.mpr hid⟩
      rw [hw.rows] at hmem
      exact List.not_mem_nil hmem
    obtain ⟨w', hx⟩ : ∃ w', Exec sem (forEach (u.updateRecent data plain newHash)
        (some (n : Int)).toList) w (.ok ()) w' := exists_recentCreated hnone plain newHash _
    obtain ⟨_, w₁, hone, -⟩ := exec_bind_ok.mp hx
    exact ⟨w₁, hone⟩
  · have hrow : recentRows w u.id = [⟨u.id, Text.join "\n" (hash :: hashes)⟩] := hw.rows
    have hfind : Exec sem (RecentPasswordsEntity.find u.id) w
        (.ok ⟨u.id, Text.join "\n" (hash :: hashes)⟩) w := by
      refine exec_fetchOne.mpr ⟨?_, rfl⟩
      show (recentRows w u.id).head? = _
      rw [hrow]
      rfl
    have hloop : User.checkRecent data plain n 1
        (Text.split '\n' (Text.join "\n" (hash :: hashes))) =
          .ok (compared n (hash :: hashes)) := by
      rw [hw.split h (List.cons_ne_nil _ _), checkRecent_eq h hw.hashed hn, compared_stored,
        if_neg hplain]
    obtain ⟨w', hsave⟩ : ∃ w', Exec sem (RecentPasswordsEntity.save
        ⟨u.id, newHash ++ "\n" ++ Text.join "\n" (compared n (hash :: hashes))⟩) w (.ok ()) w' :=
      ⟨_, exec_execute.mpr ⟨_, Commits.of_emails rfl rfl, rfl⟩⟩
    have htried : Exec sem (attempt (RecentPasswordsEntity.find u.id) : M ErrorResponse _) w
        (.ok (.ok ⟨u.id, Text.join "\n" (hash :: hashes)⟩)) w := exec_tried.mpr hfind
    refine ⟨w', exec_bind_ok.mpr ⟨_, w, htried, ?_⟩⟩
    exact exec_bind_ok.mpr ⟨_, w, exec_answer.mpr ⟨hloop, rfl⟩, hsave⟩

/-- **Which passwords are accepted.** -/
theorem History.accepted_iff (h : ExactHashes data isHash) (hn : 1 ≤ n)
    (hrules : PolicyStored rules w) (hrecent : rules.notRecentlyUsed = some (n : Int))
    (hw : History isHash n u.id used hashes w) :
    PasswordAccepted data w u plain ↔
      User.checkPolicy data rules plain = .ok () ∧ plain ∉ compared n used := by
  constructor
  · rintro ⟨u', w', hx⟩
    obtain ⟨hcheck, newHash, w₁, w₂, -, hdb, hone, -⟩ := exec_applyPasswordRules hrules hrecent hx
    exact ⟨hcheck, ((hw.of_db hdb).updateRecent h hn hone).1⟩
  · rintro ⟨hcheck, hplain⟩
    refine accepted_of_recent hrules hcheck fun w₁ hdb => ?_
    obtain ⟨w₂, hone⟩ : ∃ w₂, Exec sem (u.updateRecent data plain "hash" n) w₁ (.ok ()) w₂ :=
      (hw.of_db hdb).exists_updateRecent h hn hplain
    rw [hrecent]
    exact ⟨w₂, exec_bind_ok.mpr ⟨(), w₂, hone, rfl, rfl⟩⟩

end Change

/-- **When a change is treated as the policy says**: the policy says 1 and there has been one change
at most, or it says more and the password is not the last one of those that it means. -/
theorem history_kept_iff {data : AppState} {isHash : String → String → Prop}
    {rules : PasswordPolicy} {n : ℕ} {u : User} {used : List String} {plain : String} {w : World}
    (h : ExactHashes data isHash) (hn : 1 ≤ n) (hrecent : rules.notRecentlyUsed = some (n : Int))
    (hw : Changed data isHash rules u.id used w) (hrules : PolicyStored rules w) :
    HistoryKept data rules n u used plain w ↔
      n = 1 ∧ used.length ≤ 1 ∨
      2 ≤ n ∧ (User.checkPolicy data rules plain = .ok () → plain ∈ used.take n →
        plain ∈ used.take (n - 1)) := by
  obtain ⟨hashes, hw⟩ := hw.history h hn hrecent
  have haccepted : PasswordAccepted data w u plain ↔ _ := hw.accepted_iff h hn hrules hrecent
  have hlen : hashes.length = (stored n used).length := hw.hashed.length_eq.symm
  have hbounded : (∀ r ∈ recentRows w u.id, (Text.split '\n' r.passwords).length ≤ n) ↔
      hashes.length ≤ n := by
    rw [hw.rows]
    rcases hashes with - | ⟨hash, hashes⟩
    · exact ⟨fun _ => Nat.zero_le n, fun _ r hr => absurd hr List.not_mem_nil⟩
    · have hsplit := hw.split h (List.cons_ne_nil hash hashes)
      rw [historyRow, List.forall_mem_singleton, hsplit]
  rcases Nat.eq_or_lt_of_le hn with rfl | hn₂
  · have hall : hashes.length = used.length := by rw [hlen, stored, if_pos rfl]
    have hcompared : compared 1 used = used := if_pos rfl
    rw [hcompared] at haccepted
    constructor
    · intro hkept
      have hle := hbounded.mp hkept.bounded
      exact .inl ⟨rfl, by omega⟩
    · rintro (⟨-, hle⟩ | ⟨hfalse, -⟩)
      · have htake : used.take 1 = used := List.take_of_length_le hle
        rw [← hall] at hle
        refine ⟨fun hmem hacc => ?_, fun hmem hcheck => ?_, hbounded.mpr hle⟩
        · rw [htake] at hmem
          exact (haccepted.mp hacc).2 hmem
        · rw [htake] at hmem
          exact haccepted.mpr ⟨hcheck, hmem⟩
      · omega
  · have hne : n ≠ 1 := by omega
    have hcompared : compared n used = used.take (n - 1) := if_neg hne
    have hle : hashes.length ≤ n := by
      rw [hlen, stored, if_neg hne, List.length_take]
      exact Nat.min_le_left _ _
    have hsub : ∀ p ∈ used.take (n - 1), p ∈ used.take n := fun p hp =>
      (List.take_prefix_take_left (Nat.sub_le n 1)).subset hp
    rw [hcompared] at haccepted
    constructor
    · intro hkept
      refine .inr ⟨hn₂, fun hcheck hmem => ?_⟩
      by_contra hnot
      exact hkept.rejects hmem (haccepted.mpr ⟨hcheck, hnot⟩)
    · rintro (⟨rfl, -⟩ | ⟨-, hroom⟩)
      · exact absurd rfl hne
      · refine ⟨fun hmem hacc => ?_, fun hmem hcheck => ?_, hbounded.mpr hle⟩
        · obtain ⟨hcheck, hnot⟩ := haccepted.mp hacc
          exact hnot (hroom hcheck hmem)
        · exact haccepted.mpr ⟨hcheck, fun hp => hmem (hsub plain hp)⟩

/-- A policy that looks back -/
def recentRules : PasswordPolicy :=
  { (default : PasswordPolicy) with lengthMin := 4, lengthMax := 64, notRecentlyUsed := some 2 }

/-- The policy, and the recent passwords of Alice -/
def recentWorld (rows : List RecentPasswordsEntity) : World where
  clock := 0
  issued := []
  db
    | .passwordPolicy => [recentRules]
    | .recentPasswords => rows
    | _ => []
  cache _ _ := none

/-- The passwords of the example are compared as they are. -/
def PlainHash (plain hash : String) : Prop := hash = plain ∧ '\n' ∉ hash.toList

theorem exactHashes_sampleState : ExactHashes sampleState PlainHash where
  compare plain plain' hash h := by
    rw [h.1]
    exact congrArg Except.ok (beq_eq_decide plain plain')
  line _ _ h := h.2

theorem policyStored_recentWorld (rows : List RecentPasswordsEntity) :
    PolicyStored recentRules (recentWorld rows) where
  row := rfl
  cached _ h := by cases h

/-- A change succeeds and stores the rows. -/
def changesTo (plain : String) (rows : List RecentPasswordsEntity)
    (r : Except (Fault ErrorResponse) User) (w : World) : Bool :=
  match r with
  | .ok u => decide (u.password = some plain) && decide (w.db .recentPasswords = rows)
  | .error _ => false

theorem Changed.of_run {used : List String} {plain : String}
    {rows rows' : List RecentPasswordsEntity} (choices : List Choice)
    (h : Changed sampleState PlainHash recentRules "alice" used (recentWorld rows))
    (hline : '\n' ∉ plain.toList)
    (hrun : (Pool.runWith Op.run (sampleUser.applyPasswordRules sampleState plain) choices
      (recentWorld rows)).any (fun x => changesTo plain rows' x.1 x.2) = true) :
    Changed sampleState PlainHash recentRules "alice" (plain :: used) (recentWorld rows') := by
  obtain ⟨r, w', hx, hr⟩ := Pool.exists_exec_of_choices Op.run _ _ _ _ hrun
  rcases r with e | u
  · cases hr
  obtain ⟨hpassword, hrows⟩ := Bool.and_eq_true_iff.mp hr
  refine .other (.change h (policyStored_recentWorld rows) rfl hx fun hash hhash => ?_) ?_
  · rw [of_decide_eq_true hpassword] at hhash
    cases hhash
    exact ⟨rfl, hline⟩
  · unfold recentRows
    rw [of_decide_eq_true hrows]
    rfl

theorem changed_second : Changed sampleState PlainHash recentRules "alice" ["second", "first"]
    (recentWorld [⟨"alice", "second\nfirst"⟩]) := by
  have hnew : Changed sampleState PlainHash recentRules "alice" [] (recentWorld []) := .new rfl
  have hfirst : Changed sampleState PlainHash recentRules "alice" ["first"]
      (recentWorld [⟨"alice", "first"⟩]) :=
    .of_run [.miss, .ok, .ok, .rand "first", .ok, .ok] hnew (by decide)
      (by decide +kernel)
  exact .of_run [.miss, .ok, .ok, .rand "second", .ok, .ok] hfirst (by decide)
    (by decide +kernel)

theorem history_kept_iff_third : HistoryKept sampleState recentRules 2 sampleUser
    ["second", "first"] "third" (recentWorld [⟨"alice", "second\nfirst"⟩]) := by
  have hrecent : recentRules.notRecentlyUsed = some ((2 : ℕ) : Int) := rfl
  refine (history_kept_iff exactHashes_sampleState (by decide) hrecent changed_second
    (policyStored_recentWorld _)).mpr (.inr ⟨le_rfl, ?_⟩)
  intro _ hmem
  exact absurd hmem (by decide)

/-- A policy of 2 lets the second last password come back. -/
theorem last_password_reused : ¬ ∀ (data : AppState) (isHash : String → String → Prop)
    (rules : PasswordPolicy) (n : ℕ) (u : User) (used : List String) (plain : String) (w : World),
    ExactHashes data isHash → 1 ≤ n → n ≤ 10 → rules.notRecentlyUsed = some (n : Int) →
    Changed data isHash rules u.id used w → PolicyStored rules w →
    HistoryKept data rules n u used plain w := by
  intro hall
  have hkept := hall _ _ _ 2 sampleUser _ "first" _ exactHashes_sampleState (by decide) (by decide)
    rfl changed_second (policyStored_recentWorld _)
  obtain ⟨r, w', hx, hr⟩ := Pool.exists_exec_of_choices Op.run
    (sampleUser.applyPasswordRules sampleState "first")
    [.miss, .ok, .ok, .rand "first", .ok, .ok] (recentWorld [⟨"alice", "second\nfirst"⟩])
    (changesTo "first" [⟨"alice", "first\nsecond"⟩]) (by decide +kernel)
  rcases r with e | u
  · cases hr
  · exact hkept.rejects (by decide) ⟨u, w', hx⟩

end Rauthy
