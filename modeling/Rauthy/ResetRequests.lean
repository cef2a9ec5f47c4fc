/-
Rauthy/ResetRequests.lean

Which links a user is left with who has asked for a password reset.

`request_password_reset` wants to invalidate the active link of the user before it creates a new
one.  It takes the first row of all the links of the user, whatever that link is for: it may be the
one that confirms a new e-mail, and other links for the password stay active.

Main result: `reset_replaces_iff`, when the new link is the only one.
-/
import Rauthy.PasswordReset

namespace Rauthy

open Prog

/-! ### The request -/

/-- `MagicLink::find_by_user`: the first row of all of the user's links. -/
def MagicLink.findByUser (userId : String) : M ErrorResponse MagicLink :=
  fetchOne .magicLinks fun l => l.userId == userId

/-- The link that is found is invalidated if it has not expired. -/
def MagicLink.invalidateActive (found : Except ErrorResponse MagicLink) : M ErrorResponse Unit :=
  match found with
  | .error _ => return ()
  | .ok ml => do
      let now ← unixTimestamp
      runIf (ml.exp > now) ml.invalidate

/-- What the new link is for. -/
def User.resetUsage (u : User) (redirectUri : Option String) : MagicLinkUsage :=
  if u.password = none ∧ u.hasWebauthnEnabled = false then .newUser redirectUri
  else .passwordReset redirectUri

/-- What `request_password_reset` does once it has looked for a link. -/
def User.replaceLink (data : AppState) (u : User) (redirectUri : Option String)
    (mlRes : Except ErrorResponse MagicLink) : M ErrorResponse Unit := do
  MagicLink.invalidateActive mlRes
  let _ ← MagicLink.create u.id data.mlLtPwdReset (u.resetUsage redirectUri)
  return ()

/-- `request_password_reset`, without the e-mail -/
def User.requestPasswordReset (data : AppState) (u : User) (redirectUri : Option String) :
    M ErrorResponse Unit :=
  if u.accountType = .passkey then return ()
  else do
    let mlRes ← attempt (MagicLink.findByUser u.id)
    u.replaceLink data redirectUri mlRes

/-! ### The links of a user -/

namespace MagicLink

/-- The link is there to set a password. -/
def setsPassword (l : MagicLink) : Bool :=
  match MagicLinkUsage.tryFrom l.usage with
  | .ok (.newUser _) | .ok (.passwordReset _) => true
  | _ => false

/-- The link is there to confirm an e-mail. -/
def changesEmail (l : MagicLink) : Bool :=
  match MagicLinkUsage.tryFrom l.usage with
  | .ok (.emailChange _) => true
  | _ => false

/-- The user can still set a password with the link. -/
def activeFor (uid : String) (now : Int) (l : MagicLink) : Bool :=
  l.userId == uid && l.setsPassword && decide (now ≤ l.exp) && !l.used

def emailLinkOf (uid : String) (l : MagicLink) : Bool := l.userId == uid && l.changesEmail

end MagicLink

open MagicLink

/-- The new link is the only one to set a password with, and the links for the e-mail are what they
were. -/
structure Replaced (uid : String) (now : Int) (w w' : World) : Prop where
  only : ∃ new : MagicLink, (∀ r ∈ w.db .magicLinks, r.id ≠ new.id) ∧
    (w'.db .magicLinks).filter (activeFor uid now) = [new]
  emails : (w'.db .magicLinks).filter (emailLinkOf uid) =
    (w.db .magicLinks).filter (emailLinkOf uid)

/-- The link is the one that was found, and it is still active when it is checked. -/
def FoundActive (found : Option MagicLink) (t : Int) (l : MagicLink) : Prop :=
  found = some l ∧ t < l.exp

/-- The link that was found is the only one to set a password with.  If it is one for the e-mail
that was active at `t`, it is invalidated at `t'` ten seconds after its end, which changes
nothing. -/
structure FoundAll (uid : String) (found : Option MagicLink) (t t' now : Int) (w : World) :
    Prop where
  active : ∀ l ∈ w.db .magicLinks, activeFor uid now l = true → FoundActive found t l
  email : ∀ l, FoundActive found t l → emailLinkOf uid l = true → l.exp = t' - 10

section Request

variable {data : AppState} {u : User} {redirectUri : Option String} {w w' : World} {uid : String}
  {now t : Int}

theorem resetUsage_cases (u : User) (redirectUri : Option String) :
    u.resetUsage redirectUri = .newUser redirectUri ∨
      u.resetUsage redirectUri = .passwordReset redirectUri := by
  unfold User.resetUsage
  split
  · exact .inl rfl
  · exact .inr rfl

/-- **The usage of the new link** is to set a password, whatever the address is. -/
theorem setsPassword_resetUsage {l : MagicLink} (h : l.usage = (u.resetUsage redirectUri).toStr) :
    l.setsPassword = true ∧ l.changesEmail = false := by
  unfold setsPassword changesEmail
  rw [h]
  by_cases huri : redirectUri = some ""
  · -- an empty address is read back as none
    have hempty : MagicLinkUsage.tryFrom (MagicLinkUsage.newUser (some "")).toStr =
          .ok (.newUser none) ∧
        MagicLinkUsage.tryFrom (MagicLinkUsage.passwordReset (some "")).toStr =
          .ok (.passwordReset none) := by decide
    rcases resetUsage_cases u redirectUri with hu | hu
    · rw [hu, huri, hempty.1]
      exact ⟨rfl, rfl⟩
    · rw [hu, huri, hempty.2]
      exact ⟨rfl, rfl⟩
  · rcases resetUsage_cases u redirectUri with hu | hu
    · rw [hu, MagicLinkUsage.tryFrom_toStr (.newUser redirectUri) huri]
      exact ⟨rfl, rfl⟩
    · rw [hu, MagicLinkUsage.tryFrom_toStr (.passwordReset redirectUri) huri]
      exact ⟨rfl, rfl⟩

/-- What the invalidation of the link that was found does to the links. -/
structure LinksAfter (found : Option MagicLink) (t t' : Int) (w w' : World)
    (g : MagicLink → MagicLink) : Prop where
  links : w'.db .magicLinks = (w.db .magicLinks).map g
  expired : ∀ r, FoundActive found t r → g r = { r with exp := t' - 10 }
  other : ∀ r ∈ w.db .magicLinks, ¬ FoundActive found t r → g r = r
  start : w.clock / 1000 ≤ t
  between : t ≤ t'
  stop : t' ≤ w'.clock / 1000

theorem invalidateActive_links {found : Except ErrorResponse MagicLink}
    (hu : UniqueKey MagicLink.id (w.db .magicLinks))
    (hfound : ∀ ml, found = .ok ml → ml ∈ w.db .magicLinks)
    (h : Exec sem (invalidateActive found) w (.ok ()) w') :
    ∃ t t' g, LinksAfter found.toOption t t' w w' g := by
  rcases found with e | ml
  · obtain ⟨-, rfl⟩ := exec_ret.mp h
    refine ⟨w'.clock / 1000, w'.clock / 1000, id, (List.map_id _).symm, fun r hr => ?_,
      fun _ _ _ => rfl, le_refl _, le_refl _, le_refl _⟩
    cases hr.1
  obtain ⟨now, w₁, hnow, h⟩ := exec_bind_ok.mp h
  obtain ⟨ms, rfl, hms, rfl⟩ := exec_unixTimestamp.mp hnow
  have hstart : w.clock / 1000 ≤ ms / 1000 := Int.ediv_le_ediv (by decide) hms
  unfold runIf at h
  split at h
  · next hactive =>
      obtain ⟨now', w₂, hnow', hsave⟩ := exec_bind_ok.mp h
      obtain ⟨ms', rfl, hms', rfl⟩ := exec_unixTimestamp.mp hnow'
      obtain ⟨db, hdb, rfl⟩ := exec_execute.mp hsave
      have hbetween : ms / 1000 ≤ ms' / 1000 := Int.ediv_le_ediv (by decide) hms'
      refine ⟨ms / 1000, ms' / 1000, fun r => if r.id == ml.id then
        { r with cookie := ml.cookie, exp := ms' / 1000 - 10, used := ml.used } else r,
        ?_, fun r hr => ?_, fun r hr hne => ?_, hstart, hbetween, le_refl _⟩
      · obtain ⟨db', happly, hdone⟩ := Option.bind_eq_some_iff.mp hdb.applied
        obtain rfl := Option.some.inj hdone
        simp only [DbWrite.apply, Option.some.injEq] at happly
        obtain rfl := happly
        rfl
      · obtain rfl : ml = r := Option.some.inj hr.1
        exact if_pos (beq_self_eq_true _)
      · refine if_neg fun hid => hne ⟨?_, ?_⟩
        · exact congrArg some (hu.inj hr (hfound ml rfl) (beq_iff_eq.mp hid)).symm
        · rw [hu.inj hr (hfound ml rfl) (beq_iff_eq.mp hid)]
          exact hactive
  · next hexpired =>
      obtain ⟨-, rfl⟩ := exec_ret.mp h
      refine ⟨ms / 1000, ms / 1000, id, (List.map_id _).symm, fun r hr => ?_, fun _ _ _ => rfl,
        hstart, le_refl _, le_refl _⟩
      obtain rfl : ml = r := Option.some.inj hr.1
      exact absurd hr.2 hexpired

/-- **The new link** is appended to the others. -/
theorem exec_createLink {minutes : Int} {usage : MagicLinkUsage} {new : MagicLink}
    (h : Exec sem (MagicLink.create uid minutes usage) w (.ok new) w') :
    w'.db .magicLinks = w.db .magicLinks ++ [new] ∧ (∀ r ∈ w.db .magicLinks, r.id ≠ new.id) ∧
      new.userId = uid ∧ new.usage = usage.toStr ∧ new.used = false ∧
      new.exp = w'.clock / 1000 + minutes * 60 ∧ w.clock ≤ w'.clock := by
  obtain ⟨id, w₁, hid, h⟩ := exec_bind_ok.mp h
  obtain ⟨now, w₂, hnow, h⟩ := exec_bind_ok.mp h
  obtain ⟨csrf, w₃, hcsrf, h⟩ := exec_bind_ok.mp h
  obtain ⟨_, w₄, hexec, hret, rfl⟩ := exec_bind_ok.mp h
  cases hret
  obtain ⟨_, hval, hstep⟩ := exec_op.mp hid
  cases hval
  obtain ⟨-, -, -, rfl⟩ := sem_getRand.mp hstep
  obtain ⟨ms, rfl, hms, rfl⟩ := exec_unixTimestamp.mp hnow
  obtain ⟨_, hval, hstep⟩ := exec_op.mp hcsrf
  cases hval
  obtain ⟨-, -, -, rfl⟩ := sem_getRand.mp hstep
  obtain ⟨db, hdb, rfl⟩ := exec_execute.mp hexec
  obtain ⟨db', happly, hdone⟩ := Option.bind_eq_some_iff.mp hdb.applied
  obtain rfl := Option.some.inj hdone
  simp only [DbWrite.apply, Option.ite_none_left_eq_some, Option.some.injEq] at happly
  obtain ⟨hfree, rfl⟩ := happly
  refine ⟨rfl, fun r hr he => hfree ?_, rfl, rfl, rfl, rfl, hms⟩
  exact List.any_eq_true.mpr ⟨r, hr, beq_iff_eq.mpr he.symm⟩

/-- The links after the request, when an invalidated link and a new one are among them. -/
theorem LinksAfter.replaced_iff {found : Option MagicLink} {t' : Int} {g : MagicLink → MagicLink}
    {new : MagicLink} {w₁ : World} (h : LinksAfter found t t' w w₁ g)
    (hfound : ∀ l, found = some l → l ∈ w.db .magicLinks) (hnow : t' ≤ now)
    (hlinks : w'.db .magicLinks = (w.db .magicLinks).map g ++ [new])
    (hfresh : ∀ r ∈ w.db .magicLinks, r.id ≠ new.id) (hactive : activeFor uid now new = true)
    (hemail : emailLinkOf uid new = false) :
    Replaced uid now w w' ↔ FoundAll uid found t t' now w := by
  have hsame : ∀ r ∈ w.db .magicLinks, emailLinkOf uid (g r) = emailLinkOf uid r := by
    intro r hr
    by_cases hf : FoundActive found t r
    · rw [h.expired r hf]
      rfl
    · rw [h.other r hr hf]
  have hpassword : ((w.db .magicLinks).map g).filter (activeFor uid now) = [] ↔
      ∀ l ∈ w.db .magicLinks, activeFor uid now l = true → FoundActive found t l := by
    rw [List.filter_eq_nil_iff, List.forall_mem_map]
    refine forall₂_congr fun r hr => ?_
    by_cases hf : FoundActive found t r
    · -- a link that was invalidated has expired
      have hexp : activeFor uid now (g r) = false := by
        rw [h.expired r hf]
        have hlt : ¬ now ≤ t' - 10 := by omega
        simp [activeFor, hlt]
      rw [hexp]
      exact ⟨fun _ _ => hf, fun _ => Bool.false_ne_true⟩
    · rw [h.other r hr hf]
      exact ⟨fun hn ha => absurd ha hn, fun hn ha => hf (hn ha)⟩
  have hemails : (w'.db .magicLinks).filter (emailLinkOf uid) =
      ((w.db .magicLinks).filter (emailLinkOf uid)).map g := by
    rw [hlinks, List.filter_append, List.filter_singleton, hemail, List.filter_map,
      List.filter_congr fun r hr => (show (emailLinkOf uid ∘ g) r = _ from hsame r hr)]
    exact List.append_nil _
  have hkept : ((w.db .magicLinks).filter (emailLinkOf uid)).map g =
      (w.db .magicLinks).filter (emailLinkOf uid) ↔
      ∀ l, FoundActive found t l → emailLinkOf uid l = true → l.exp = t' - 10 := by
    conv_lhs => rw [← List.map_id ((w.db .magicLinks).filter (emailLinkOf uid)), List.map_map]
    rw [List.map_inj_left]
    constructor
    · intro hid l hf he
      have hg : g l = l := hid l (List.mem_filter.mpr ⟨hfound l hf.1, he⟩)
      rw [h.expired l hf] at hg
      exact (congrArg MagicLink.exp hg).symm
    · intro hexp r hr
      obtain ⟨hmem, he⟩ := List.mem_filter.mp hr
      by_cases hf : FoundActive found t r
      · show g r = r
        rw [h.expired r hf, ← hexp r hf he]
      · exact h.other r hmem hf
  have hafter : (w'.db .magicLinks).filter (activeFor uid now) =
      ((w.db .magicLinks).map g).filter (activeFor uid now) ++ [new] := by
    rw [hlinks, List.filter_append, List.filter_singleton, hactive]
    rfl
  constructor
  · rintro ⟨⟨new', -, hone⟩, hmail⟩
    refine ⟨hpassword.mp ?_, hkept.mp (hemails ▸ hmail)⟩
    rw [hafter] at hone
    have hlen := congrArg List.length hone
    rw [List.length_append, List.length_singleton, List.length_singleton] at hlen
    exact List.length_eq_zero_iff.mp (by omega)
  · rintro ⟨hall, hmail⟩
    refine ⟨⟨new, hfresh, ?_⟩, hemails.trans (hkept.mpr hmail)⟩
    rw [hafter, hpassword.mpr hall, List.nil_append]

theorem replaceLink_replaced_iff (hlt : 0 ≤ data.mlLtPwdReset)
    (hu : UniqueKey MagicLink.id (w.db .magicLinks)) {mlRes : Except ErrorResponse MagicLink}
    (hrow : ∀ ml, mlRes = .ok ml →
      ((w.db .magicLinks).filter fun l => l.userId == u.id).head? = some ml)
    (h : Exec sem (u.replaceLink data redirectUri mlRes) w (.ok ()) w') :
    ∃ t t', w.clock / 1000 ≤ t ∧ t ≤ t' ∧ t' ≤ w'.clock / 1000 ∧
      (Replaced u.id (w'.clock / 1000) w w' ↔
        FoundAll u.id mlRes.toOption t t' (w'.clock / 1000) w) := by
  obtain ⟨_, w₂, hinvalidate, h⟩ := exec_bind_ok.mp h
  obtain ⟨new, w₃, hcreate, -, rfl⟩ := exec_bind_ok.mp h
  have hmem : ∀ ml, mlRes = .ok ml → ml ∈ w.db .magicLinks := fun ml hml =>
    (List.mem_filter.mp (List.mem_of_head? (hrow ml hml))).1
  obtain ⟨t, t', g, hafter⟩ := invalidateActive_links hu hmem hinvalidate
  obtain ⟨hlinks, hfresh, huser, husage, hused, hexp, hclock⟩ := exec_createLink hcreate
  obtain ⟨hsets, hmail⟩ := setsPassword_resetUsage husage
  have hstop : t' ≤ w'.clock / 1000 :=
    le_trans hafter.stop (Int.ediv_le_ediv (by decide) hclock)
  have hunexpired : w'.clock / 1000 ≤ new.exp := by
    rw [hexp]
    omega
  rw [hafter.links] at hlinks hfresh
  refine ⟨t, t', hafter.start, hafter.between, hstop, ?_⟩
  refine hafter.replaced_iff (fun l hl => ?_) hstop hlinks (fun r hr => ?_) ?_ ?_
  · rcases mlRes with e | ml
    · cases hl
    · exact hmem l (congrArg _ (Option.some.inj hl))
  · have hid : (g r).id = r.id := by
      by_cases hf : FoundActive mlRes.toOption t r
      · rw [hafter.expired r hf]
      · rw [hafter.other r hr hf]
    rw [← hid]
    exact hfresh (g r) (List.mem_map_of_mem hr)
  · simp [activeFor, huser, hsets, hunexpired, hused]
  · simp [emailLinkOf, hmail]

/-- **Which links are left**: a request for a password reset looks for the first row of the user's
links and goes on with the answer of this query, which may have failed.  Afterwards the new link is
the only one to set a password with and the links for the e-mail are unchanged, iff the row that was
found is the only one to set a password with, and is not one for the e-mail that is invalidated. -/
theorem reset_replaces_iff (hlt : 0 ≤ data.mlLtPwdReset)
    (hu : UniqueKey MagicLink.id (w.db .magicLinks)) (htype : u.accountType ≠ .passkey) :
    (Exec sem (u.requestPasswordReset data redirectUri) w (.ok ()) w' ↔
      ∃ mlRes, Exec sem (MagicLink.findByUser u.id) w (mlRes.mapError .err) w ∧
        Exec sem (u.replaceLink data redirectUri mlRes) w (.ok ()) w') ∧
    ∀ mlRes, Exec sem (MagicLink.findByUser u.id) w (mlRes.mapError .err) w →
      Exec sem (u.replaceLink data redirectUri mlRes) w (.ok ()) w' →
      (∀ ml, mlRes = .ok ml →
        ((w.db .magicLinks).filter fun l => l.userId == u.id).head? = some ml) ∧
      ∃ t t', w.clock / 1000 ≤ t ∧ t ≤ t' ∧ t' ≤ w'.clock / 1000 ∧
        (Replaced u.id (w'.clock / 1000) w w' ↔
          FoundAll u.id mlRes.toOption t t' (w'.clock / 1000) w) := by
  refine ⟨?_, fun mlRes hquery hrest => ?_⟩
  · rw [User.requestPasswordReset, if_neg htype]
    constructor
    · intro h
      obtain ⟨mlRes, w₁, hfind, hrest⟩ := exec_bind_ok.mp h
      have hquery := exec_tried.mp hfind
      obtain rfl := exec_fetchOne_world hquery
      exact ⟨mlRes, hquery, hrest⟩
    · rintro ⟨mlRes, hquery, hrest⟩
      exact exec_bind_ok.mpr ⟨mlRes, w, exec_tried.mpr hquery, hrest⟩
  · have hrow : ∀ ml, mlRes = .ok ml →
        ((w.db .magicLinks).filter fun l => l.userId == u.id).head? = some ml := by
      rintro ml rfl
      exact (exec_fetchOne.mp hquery).1
    exact ⟨hrow, replaceLink_replaced_iff hlt hu hrow hrest⟩

end Request

/-- A link that has expired does not stand in the way of a new one. -/
theorem reset_replaces_iff_expired : ∃ w', Exec sem
    (sampleUser.requestPasswordReset sampleState none) (linkWorld "password_reset") (.ok ()) w' ∧
    Replaced "alice" (w'.clock / 1000) (linkWorld "password_reset") w' := by
  obtain ⟨r, w', hx, hr⟩ := Pool.exists_exec_of_choices Op.run
    (sampleUser.requestPasswordReset sampleState none)
    [.ok, .time 100000, .rand (String.ofList (List.replicate 64 'a')), .time 100000,
      .rand (String.ofList (List.replicate 48 'b')), .ok] (linkWorld "password_reset")
    (fun r w' => r.isOk && decide (w'.clock = 100000)) (by decide +kernel)
  obtain ⟨hok, hclock⟩ := Bool.and_eq_true_iff.mp hr
  rcases r with e | ⟨⟩
  · cases hok
  have hunique : UniqueKey MagicLink.id ((linkWorld "password_reset").db .magicLinks) :=
    List.nodup_singleton _
  obtain ⟨hruns, hreplaced⟩ := @reset_replaces_iff sampleState sampleUser none
    (linkWorld "password_reset") w' (by decide) hunique (by decide)
  obtain ⟨mlRes, hquery, hrest⟩ := hruns.mp hx
  obtain ⟨hrow, t, t', -, -, -, hiff⟩ := hreplaced mlRes hquery hrest
  refine ⟨w', hx, hiff.mpr ⟨fun l hl ha => ?_, fun l hl he => ?_⟩⟩
  · obtain rfl := List.mem_singleton.mp hl
    rw [of_decide_eq_true hclock] at ha
    exact absurd ha (by decide)
  · rcases mlRes with e | ml
    · cases hl.1
    · obtain rfl := Option.some.inj (hrow ml rfl)
      obtain rfl := Option.some.inj hl.1
      exact absurd he (by decide)

/-- A link that confirms a new e-mail, and one to set the password. -/
def twoLinks : World :=
  { linkWorld "" with
    db := fun
      | .magicLinks =>
          [{ id := "mail", userId := "alice", csrfToken := "csrf", cookie := none, exp := 3600,
             used := false, usage := "email_change$alice@example.com" },
           { id := "reset", userId := "alice", csrfToken := "csrf", cookie := none, exp := 1800,
             used := false, usage := "password_reset" }]
      | _ => [] }

/-- The link for the e-mail is invalidated, and the old one for the password is not. -/
theorem wrong_link_invalidated :
    ¬ ∀ (data : AppState) (u : User) (redirectUri : Option String) (w w' : World),
      0 ≤ data.mlLtPwdReset → UniqueKey MagicLink.id (w.db .magicLinks) →
      u.accountType ≠ .passkey →
      Exec sem (u.requestPasswordReset data redirectUri) w (.ok ()) w' →
      Replaced u.id (w'.clock / 1000) w w' := by
  intro hall
  obtain ⟨r, w', hx, hr⟩ := Pool.exists_exec_of_choices Op.run
    (sampleUser.requestPasswordReset sampleState none)
    [.ok, .time 0, .time 0, .ok, .rand (String.ofList (List.replicate 64 'a')), .time 0,
      .rand (String.ofList (List.replicate 48 'b')), .ok] twoLinks
    (fun r w' => r.isOk && ((w'.db .magicLinks).filter (emailLinkOf "alice")).all
      fun l => decide (l.exp = -10)) (by decide +kernel)
  obtain ⟨hok, hexp⟩ := Bool.and_eq_true_iff.mp hr
  rcases r with e | ⟨⟩
  · cases hok
  have hunique : ((twoLinks.db .magicLinks).map MagicLink.id).Nodup := by decide
  have hkept : (w'.db .magicLinks).filter (emailLinkOf "alice") =
      (twoLinks.db .magicLinks).filter (emailLinkOf "alice") :=
    (hall sampleState sampleUser none twoLinks w' (by decide) hunique (by decide) hx).emails
  rw [hkept] at hexp
  exact absurd hexp (by decide)

end Rauthy
