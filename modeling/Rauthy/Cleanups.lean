/-
Rauthy/Cleanups.lean

The scheduler that cleans up magic links, and the accounts that were never activated.

`magic_link_cleanup` computes the bound for expired links and binds it to both of its statements.
The first one, which deletes the users, does not use it: it compares with a constant instead, and
looks neither at the kind of the link nor at what else the user can log in with.

Main results:
  * `links_cleaned_iff`: one run deletes the right links and users iff the users that the first
    statement selects are the right ones, and none of them has a link that is still good.
-/
import Rauthy.Transactions
import Rauthy.Users

namespace Rauthy

open Prog

/-- The rows that the foreign keys delete along with users. -/
def User.cascade (gone : String → Bool) : List DbWrite :=
  [.delete .usersValues fun r => gone r.id,
   .delete .userAttrValues fun r => gone r.userId,
   .delete .recentPasswords fun r => gone r.userId,
   .delete .magicLinks fun r => gone r.userId,
   .delete .sessions fun r => r.userId.any gone,
   .delete .passkeys fun r => gone r.userId,
   .delete .refreshTokens fun r => gone r.userId,
   .delete .refreshTokensDevices fun r => gone r.userId,
   .delete .devices fun r => r.userId.any gone]

/-- `delete from users where id in (select distinct user_id from magic_links where
exp < 1683003398 and used = false) and password is null`: nothing is bound to it. -/
def deleteOrphans : M ErrorResponse Unit := do
  let links ← select .magicLinks fun l => decide (l.exp < 1683003398) && !l.used
  let orphaned (u : User) : Bool := links.any (fun l => l.userId == u.id) && u.password.isNone
  let users ← select .users orphaned
  execute (.delete .users orphaned :: User.cascade fun id => users.any fun u => u.id == id)

/-- One run of `magic_link_cleanup`, with what `is_ha_leader` says. -/
def magicLinkCleanup (isHaLeader : Option Bool) : M ErrorResponse Unit :=
  if isHaLeader = some false then return ()
  else do
    let now ← unixTimestamp
    let exp := now - 300
    ignoreErr deleteOrphans
    ignoreErr (execute [.delete .magicLinks fun l => decide (l.exp < exp)])

/-- The user has let the link to its first password expire, and has no other way to log in. -/
structure User.NeverActivated (now : Int) (db : Db) (u : User) : Prop where
  account : u.accountType = .new
  link : ∃ l ∈ db .magicLinks, l.userId = u.id ∧ l.exp < now - 300 ∧ l.used = false ∧
    ∃ uri, MagicLinkUsage.tryFrom l.usage = .ok (.newUser uri)

/-- What the first statement selects. -/
structure User.Orphaned (db : Db) (u : User) : Prop where
  password : u.password = none
  link : ∃ l ∈ db .magicLinks, l.userId = u.id ∧ l.exp < 1683003398 ∧ l.used = false

/-- The links deleted are those expired for more than 300 seconds, and the users deleted are those
that never activated their account. -/
structure LinksCleaned (now : Int) (db db' : Db) : Prop where
  links : ∀ l, l ∈ db' .magicLinks ↔ l ∈ db .magicLinks ∧ ¬ l.exp < now - 300
  users : ∀ u, u ∈ db' .users ↔ u ∈ db .users ∧ ¬ u.NeverActivated now db

section Cleanup

variable {isHaLeader : Option Bool} {w w' : World} {now : Int} {db db' : Db}

/-- The database after the users `p` have been deleted. -/
theorem deleteUsers_db {p : User → Bool} {gone : String → Bool}
    (h : applyAll (.delete .users p :: User.cascade gone) db = some db') :
    db' .users = (db .users).filter (fun u => !p u) ∧
    db' .magicLinks = (db .magicLinks).filter (fun l => !gone l.userId) := by
  cases h
  exact ⟨rfl, rfl⟩

theorem mem_orphaned {links : List MagicLink} {u : User}
    (hlinks : links = (db .magicLinks).filter fun l => decide (l.exp < 1683003398) && !l.used) :
    (links.any (fun l => l.userId == u.id) && u.password.isNone) = true ↔ u.Orphaned db := by
  rw [Bool.and_eq_true, List.any_eq_true, Option.isNone_iff_eq_none, hlinks]
  constructor
  · rintro ⟨⟨l, hl, hid⟩, hpassword⟩
    obtain ⟨hmem, hl⟩ := List.mem_filter.mp hl
    obtain ⟨hexp, hused⟩ := Bool.and_eq_true_iff.mp hl
    refine ⟨hpassword, l, hmem, eq_of_beq hid, of_decide_eq_true hexp, ?_⟩
    exact Bool.not_eq_true' _ |>.mp hused
  · rintro ⟨hpassword, l, hmem, hid, hexp, hused⟩
    refine ⟨⟨l, List.mem_filter.mpr ⟨hmem, ?_⟩, beq_of_eq hid⟩, hpassword⟩
    simp [hexp, hused]

/-- Who and what is left when the first statement has run. -/
structure OrphansDeleted (db db' : Db) : Prop where
  users : ∀ u, u ∈ db' .users ↔ u ∈ db .users ∧ ¬ u.Orphaned db
  links : ∀ l, l ∈ db' .magicLinks ↔
    l ∈ db .magicLinks ∧ ∀ u ∈ db .users, u.Orphaned db → u.id ≠ l.userId

theorem deleteOrphans_db :
    Outcomes semUp deleteOrphans w fun r w' =>
      r = .ok () ∧ w'.clock = w.clock ∧ OrphansDeleted w.db w'.db := by
  refine outcomes_bind (answered_select (outcomes_bind (answered_select ?_)))
  refine answered_execute fun db hdb => ⟨rfl, rfl, ?_⟩
  obtain ⟨husers, hlinks⟩ := deleteUsers_db hdb
  refine ⟨fun u => ?_, fun l => ?_⟩
  · show u ∈ db .users ↔ _
    rw [husers, List.mem_filter, Bool.not_eq_true', ← Bool.not_eq_true, mem_orphaned rfl]
  · show l ∈ db .magicLinks ↔ _
    rw [hlinks, List.mem_filter, Bool.not_eq_true', ← Bool.not_eq_true, List.any_eq_true]
    refine and_congr_right fun _ => ⟨fun hno u hu ho hid => hno ⟨u, ?_, beq_of_eq hid⟩, ?_⟩
    · exact List.mem_filter.mpr ⟨hu, (mem_orphaned rfl).mpr ho⟩
    · rintro hne ⟨u, hu, hid⟩
      obtain ⟨hu, ho⟩ := List.mem_filter.mp hu
      exact hne u hu ((mem_orphaned rfl).mp ho) (eq_of_beq hid)

/-- One run: both statements, the second one with the bound. -/
theorem magicLinkCleanup_db (hleader : isHaLeader ≠ some false) :
    Outcomes semUp (magicLinkCleanup isHaLeader) w fun _ w' => ∃ db, OrphansDeleted w.db db ∧
      w'.db .users = db .users ∧
      ∀ l, l ∈ w'.db .magicLinks ↔ l ∈ db .magicLinks ∧ ¬ l.exp < w'.clock / 1000 - 300 := by
  unfold magicLinkCleanup
  rw [if_neg hleader]
  refine outcomes_bind (answered_unixTimestamp fun ms _ => ?_)
  refine outcomes_bind (outcomes_bind (outcomes_tried (outcomes_mono deleteOrphans_db ?_)))
  rintro _ w₁ ⟨rfl, hclock, hdeleted⟩
  refine outcomes_ret (outcomes_bind (outcomes_tried (answered_execute fun db hdb => ?_)))
  cases hdb
  refine outcomes_ret ⟨w₁.db, hdeleted, rfl, fun l => ?_⟩
  show l ∈ (w₁.db .magicLinks).filter _ ↔ _ ∧ ¬ l.exp < w₁.clock / 1000 - 300
  rw [List.mem_filter, hclock, Bool.not_eq_true', decide_eq_false_iff_not]

/-- **The right links and users are deleted iff the constant selects the right users, and these have
no links that are still good.** -/
theorem links_cleaned_iff (hleader : isHaLeader ≠ some false)
    {r : Except (Fault ErrorResponse) Unit}
    (h : Exec semUp (magicLinkCleanup isHaLeader) w r w') (hnow : now = w'.clock / 1000) :
    LinksCleaned now w.db w'.db ↔ ∀ u ∈ w.db .users,
      (u.Orphaned w.db ↔ u.NeverActivated now w.db) ∧
      (u.Orphaned w.db → ∀ l ∈ w.db .magicLinks, l.userId = u.id → l.exp < now - 300) := by
  obtain ⟨db, hdeleted, husers, hlinks⟩ := magicLinkCleanup_db hleader r w' h
  rw [← hnow] at hlinks
  constructor
  · intro hclean u hu
    have hsame : ¬ u.Orphaned w.db ↔ ¬ u.NeverActivated now w.db := by
      have hleft := hclean.users u
      rw [husers, hdeleted.users u] at hleft
      exact ⟨fun ho => (hleft.mp ⟨hu, ho⟩).2, fun hn => (hleft.mpr ⟨hu, hn⟩).2⟩
    refine ⟨not_iff_not.mp hsame, fun ho l hl hid => ?_⟩
    by_contra hgood
    -- the link is good, yet it went with the user
    have hleft : l ∈ db .magicLinks := ((hlinks l).mp ((hclean.links l).mpr ⟨hl, hgood⟩)).1
    exact ((hdeleted.links l).mp hleft).2 u hu ho hid.symm
  · intro hall
    refine ⟨fun l => ?_, fun u => ?_⟩
    · rw [hlinks l, hdeleted.links l]
      constructor
      · rintro ⟨⟨hl, -⟩, hexp⟩
        exact ⟨hl, hexp⟩
      · rintro ⟨hl, hexp⟩
        exact ⟨⟨hl, fun u hu ho hid => hexp ((hall u hu).2 ho l hl hid.symm)⟩, hexp⟩
    · rw [husers, hdeleted.users u]
      exact and_congr_right fun hu => not_congr (hall u hu).1

end Cleanup

/-- A user that has registered itself, and its link. -/
def registeredUser : User := { sampleUser with id := "eve", email := "eve@localhost", password := none }

def firstLink : MagicLink where
  id := "link"
  userId := "eve"
  csrfToken := "csrf"
  cookie := none
  exp := 1700000000
  used := false
  usage := "new_user"

def registrationWorld (u : User) (l : MagicLink) : World where
  clock := 0
  issued := []
  db
    | .users => [u]
    | .magicLinks => [l]
    | _ => []
  cache _ _ := none

def cleanupChoices (ms : Int) : List Choice := [.time ms, .ok, .ok, .ok, .ok]

/-- A link of long ago, and a run right after it has expired for long enough. -/
theorem links_cleaned_iff_old : ∃ r w', Exec semUp (magicLinkCleanup none)
    (registrationWorld registeredUser { firstLink with exp := 1600000000 }) r w' ∧
    LinksCleaned 1600000301
      (registrationWorld registeredUser { firstLink with exp := 1600000000 }).db w'.db := by
  obtain ⟨r, w', hx, hr⟩ := exists_exec_semUp (magicLinkCleanup none)
    (cleanupChoices 1600000301000)
    (registrationWorld registeredUser { firstLink with exp := 1600000000 })
    (fun _ w' => decide (w'.clock = 1600000301000)) (by decide +kernel)
  have hnow : (1600000301 : Int) = w'.clock / 1000 := by
    rw [of_decide_eq_true hr]
    rfl
  refine ⟨r, w', hx, (links_cleaned_iff (by decide) hx hnow).mpr fun u hu => ?_⟩
  obtain rfl := List.mem_singleton.mp hu
  refine ⟨⟨fun _ => ⟨rfl, _, List.mem_singleton_self _, rfl, by decide, rfl, none, rfl⟩,
    fun _ => ⟨rfl, _, List.mem_singleton_self _, rfl, by decide, rfl⟩⟩, fun _ l hl _ => ?_⟩
  obtain rfl := List.mem_singleton.mp hl
  decide

/-- A user that has never activated its account is still there a year later. -/
theorem inactive_user_stays :
    ¬ ∀ (isHaLeader : Option Bool) (w w' : World), isHaLeader ≠ some false →
      Exec semUp (magicLinkCleanup isHaLeader) w (.ok ()) w' →
      LinksCleaned (w'.clock / 1000) w.db w'.db := by
  intro hall
  obtain ⟨r, w', hx, hr⟩ := exists_exec_semUp (magicLinkCleanup none)
    (cleanupChoices 1730000000000) (registrationWorld registeredUser firstLink)
    (fun r w' => r.isOk && decide (w'.clock = 1730000000000) &&
      decide (registeredUser ∈ w'.db .users)) (by decide +kernel)
  simp only [Bool.and_eq_true, decide_eq_true_eq] at hr
  obtain ⟨⟨hok, hclock⟩, hstays⟩ := hr
  rcases r with e | ⟨⟩
  · cases hok
  have hclean := ((hall none _ w' (by decide) hx).users registeredUser).mp hstays
  rw [hclock] at hclean
  exact hclean.2 ⟨rfl, firstLink, List.mem_singleton_self _, rfl, by decide, rfl, none, rfl⟩

end Rauthy
