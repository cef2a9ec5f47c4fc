/-
Rauthy/LinkRaces.lean

Requests with the same magic link at the same time.  A request reads the link, checks it, and
later saves what it has read: a GET with a new cookie, a PUT with a time of expiry in the past.
Nothing is locked in between, and the column `used` is never set.

Main results:
  * `link_used_once`: in every interleaving, a link that is looked up by one request at a time is
    expired from the first successful PUT on, and no later request is accepted with it;
  * `link_used_twice`: two PUTs at the same time are both accepted, and a GET that has read the
    link before a PUT makes it valid again afterwards.
-/
import Rauthy.CacheTickets
import Rauthy.PasswordReset

namespace Rauthy

open Prog Pool

variable {tr : List (Seen Op Op.Res)} {o : Op}

/-! ### What statements do with the links -/

/-- The statement of `MagicLink::save`. -/
def MagicLink.saveStmt (l : MagicLink) : DbWrite :=
  .update .magicLinks (fun r => r.id == l.id)
    fun r => { r with cookie := l.cookie, exp := l.exp, used := l.used }

/-- The statement can leave a link with the id `k` that was not there. -/
def StoresLink (k : String) : DbWrite → Prop
  | .insert .magicLinks r => r.id = k
  | .upsert .magicLinks r => r.id = k
  | .update .magicLinks p f => ∃ r, p r = true ∧ r.id ≠ k ∧ (f r).id = k
  | _ => False

/-- No link lives longer by the statement. -/
def LowersLinks : DbWrite → Prop
  | .upsert .magicLinks _ => False
  | .update .magicLinks p f => ∀ r, p r = true → (f r).exp ≤ r.exp
  | _ => True

/-- The links with the id `k` expire before `n`. -/
def ExpiredBefore (k : String) (n : Int) (db : Db) : Prop :=
  ∀ r ∈ db .magicLinks, r.id = k → r.exp < n

section Statements

variable {k : String} {n : Int} {s : DbWrite} {ss : List DbWrite} {db db' : Db}

/-- Where the links of a statement on their table come from. -/
theorem link_apply (h : s.apply db = some db') {r : MagicLink} (hr : r ∈ db' .magicLinks)
    (hk : r.id = k) (hs : ¬ StoresLink k s) :
    ∃ r₀ ∈ db .magicLinks, r₀.id = k ∧ (LowersLinks s → r.exp ≤ r₀.exp) := by
  have hkept : r ∈ db .magicLinks → ∃ r₀ ∈ db .magicLinks, r₀.id = k ∧
      (LowersLinks s → r.exp ≤ r₀.exp) := fun h => ⟨r, h, hk, fun _ => le_refl _⟩
  by_cases ht : s.table = .magicLinks
  · cases s with
    | insert t x =>
        obtain rfl : t = .magicLinks := ht
        simp only [DbWrite.apply] at h
        split at h
        · cases h
        cases h
        rw [Function.update_self] at hr
        rcases List.mem_append.mp hr with hr | hr
        · exact hkept hr
        · rw [List.mem_singleton.mp hr] at hk
          exact absurd hk hs
    | upsert t x =>
        obtain rfl : t = .magicLinks := ht
        cases h
        rw [Function.update_self] at hr
        rcases List.mem_append.mp hr with hr | hr
        · exact hkept (List.mem_of_mem_filter hr)
        · rw [List.mem_singleton.mp hr] at hk
          exact absurd hk hs
    | update t p f =>
        obtain rfl : t = .magicLinks := ht
        cases h
        rw [Function.update_self] at hr
        obtain ⟨r₀, hr₀, he⟩ := List.mem_map.mp hr
        split at he
        · next hp =>
            subst he
            by_cases hid : r₀.id = k
            · exact ⟨r₀, hr₀, hid, fun hl => hl r₀ hp⟩
            · exact absurd ⟨r₀, hp, hid, hk⟩ hs
        · subst he
          exact hkept hr₀
    | delete t p =>
        obtain rfl : t = .magicLinks := ht
        cases h
        rw [Function.update_self] at hr
        exact hkept (List.mem_of_mem_filter hr)
    | cascade t p =>
        obtain rfl : t = .magicLinks := ht
        cases h
        rw [Function.update_self] at hr
        exact hkept (List.mem_of_mem_filter hr)
  · rw [DbWrite.apply_frame h ht] at hr
    exact hkept hr

theorem link_applyAll (h : applyAll ss db = some db') {r : MagicLink} (hr : r ∈ db' .magicLinks)
    (hk : r.id = k) (hs : ∀ s ∈ ss, ¬ StoresLink k s) :
    ∃ r₀ ∈ db .magicLinks, r₀.id = k ∧ ((∀ s ∈ ss, LowersLinks s) → r.exp ≤ r₀.exp) := by
  induction ss generalizing db with
  | nil =>
      cases h
      exact ⟨r, hr, hk, fun _ => le_refl _⟩
  | cons s ss ih =>
      obtain ⟨db₁, h₁, h₂⟩ := Option.bind_eq_some_iff.mp h
      obtain ⟨r₁, hr₁, hk₁, he₁⟩ := ih h₂ fun s hs' => hs s (List.mem_cons_of_mem _ hs')
      obtain ⟨r₀, hr₀, hk₀, he₀⟩ := link_apply h₁ hr₁ hk₁ (hs s List.mem_cons_self)
      refine ⟨r₀, hr₀, hk₀, fun hl => ?_⟩
      exact le_trans (he₁ fun s hs' => hl s (List.mem_cons_of_mem _ hs'))
        (he₀ (hl s List.mem_cons_self))

theorem expired_applyAll (h : applyAll ss db = some db') (hdb : ExpiredBefore k n db)
    (hs : ∀ s ∈ ss, ¬ StoresLink k s) (hl : ∀ s ∈ ss, LowersLinks s) : ExpiredBefore k n db' := by
  intro r hr hk
  obtain ⟨r₀, hr₀, hk₀, he⟩ := link_applyAll h hr hk hs
  exact lt_of_le_of_lt (he hl) (hdb r₀ hr₀ hk₀)

/-- A link that is saved has the time that is saved, and the others are as before. -/
theorem expired_save {l : MagicLink} (h : applyAll [l.saveStmt] db = some db')
    (hdb : l.id ≠ k → ExpiredBefore k n db) (hl : l.id = k → l.exp < n) : ExpiredBefore k n db' := by
  cases h
  intro r hr hk
  rw [Function.update_self] at hr
  obtain ⟨r₀, hr₀, rfl⟩ := List.mem_map.mp hr
  split at hk
  · next hid =>
      have hid : r₀.id = l.id := beq_iff_eq.mp hid
      rw [if_pos (by simp [hid])]
      exact hl (hid.symm.trans hk)
  · next hid =>
      rw [if_neg hid]
      refine hdb (fun he => hid ?_) r₀ hr₀ hk
      rw [he, ← hk]
      exact beq_self_eq_true _

end Statements

/-! ### The links as tickets -/

/-- The links are stored under ids drawn at random.  Here they are not taken away: only looked
up. -/
def linkTickets : Tickets Op Op.Res World String where
  Issued w k := k ∈ w.issued
  Holds w k := ∃ r ∈ w.db .magicLinks, r.id = k
  Draws := Draws
  Stores o k := ∃ ss, o = .execute ss ∧ ∃ s ∈ ss, StoresLink k s
  Finds o x k := ∃ p r rest, (⟨o, x⟩ : Seen Op Op.Res) = ⟨.select .magicLinks p, .ok (r :: rest)⟩ ∧
    r.id = k
  Takes _ _ _ := False

/-- What is executed has been committed, or the tables are the same. -/
theorem sem_committed {ss : List DbWrite} {x : Except ErrorResponse Unit} {w w' : World}
    (h : sem (.execute ss) w x w') : w' = w ∨ ∃ db, applyAll ss w.db = some db ∧ w' = { w with db } := by
  rcases sem_execute.mp h with ⟨-, -, rfl⟩ | ⟨db, hdb, rfl⟩
  · exact .inl rfl
  · exact .inr ⟨db, hdb.applied, rfl⟩

theorem linkTickets_lawful : linkTickets.Lawful sem where
  mono h k hk := sem_issued h hk
  fresh h k hd := (cacheTickets_lawful .pow).fresh h k hd
  stored {o w x w'} h k hk := by
    obtain ⟨r, hr, hid⟩ := hk
    have hframe : o.Touches [] [] → linkTickets.Holds w k := fun ho => by
      rw [(sem_frame ho h).db .magicLinks (by simp)] at hr
      exact ⟨r, hr, hid⟩
    cases o with
    | execute ss =>
        by_cases hs : ∃ s ∈ ss, StoresLink k s
        · exact .inr ⟨ss, rfl, hs⟩
        rcases sem_committed h with rfl | ⟨db, hdb, rfl⟩
        · exact .inl ⟨r, hr, hid⟩
        · obtain ⟨r₀, hr₀, hk₀, -⟩ := link_applyAll hdb hr hid fun s hs' hst => hs ⟨s, hs', hst⟩
          exact .inl ⟨r₀, hr₀, hk₀⟩
    | cachePut c k' v =>
        have ht : Op.Touches [] [(c, v.slot)] (.cachePut c k' v) := by simp [Op.Touches]
        rw [(sem_frame ht h).db .magicLinks (by simp)] at hr
        exact .inl ⟨r, hr, hid⟩
    | _ => exact .inl (hframe trivial)
  found {o w x w'} h k hf := by
    obtain ⟨p, r, rest, he, hid⟩ := hf
    cases he
    rcases (sem_select.mp h).2 with hrows | ⟨e, he⟩
    · have hr : r ∈ (w.db .magicLinks).filter p := by
        rw [← Except.ok.inj hrows]
        exact List.mem_cons_self
      exact ⟨r, List.mem_of_mem_filter hr, hid⟩
    · cases he
  taken h k ht := ht.elim

/-! ### The requests -/

/-- Nothing is stored as a link but under an id that has just been drawn, and no link lives
longer. -/
structure AsideStep (tr : List (Seen Op Op.Res)) (s : Seen Op Op.Res) : Prop where
  once : linkTickets.Once tr s
  lowers : ∀ ss, s.1 = .execute ss → ∀ st ∈ ss, LowersLinks st

/-- The requests with a link, and any others that store new links only. -/
inductive LinkUse where
  | link (req : HttpRequest) (q : LinkRequest)
  | other (p : M ErrorResponse Unit)
      (h : ∀ tr, Sees Op.Possible AsideStep p (fun _ _ => True) tr)

/-- The requests that a link is used up by. -/
def LinkRequest.isPut : LinkRequest → Bool
  | passkeyFinish _ _ => true
  | passwordReset _ _ => true
  | _ => false

namespace LinkUse

def prog (data : AppState) : LinkUse → M ErrorResponse Unit
  | link req q => q.prog data req
  | other p _ => p

/-- The request comes with the link `k`. -/
def Presents (k : String) : LinkUse → Prop
  | link _ q => q.link = k
  | other _ _ => False

/-- It is to use the link up. -/
def Puts (k : String) : LinkUse → Prop
  | link _ q => q.link = k ∧ q.isPut = true
  | other _ _ => False

/-- `Puts`, read off the request. -/
def putsLink (k : String) : LinkUse → Bool
  | link _ q => q.link == k && q.isPut
  | other _ _ => false

theorem puts_of_putsLink {k : String} {u : LinkUse} (h : u.putsLink k = true) : u.Puts k := by
  cases u with
  | link req q =>
      obtain ⟨hk, hput⟩ := Bool.and_eq_true_iff.mp h
      exact ⟨beq_iff_eq.mp hk, hput⟩
  | other p hp => cases h

theorem Puts.presents {k : String} {u : LinkUse} (h : u.Puts k) : u.Presents k := by
  cases u with
  | link req q => exact h.1
  | other p hp => exact h.elim

end LinkUse

abbrev LinkOutcome := Except (Fault ErrorResponse) Unit

abbrev LinkEvent := Event LinkUse Op Op.Res LinkOutcome

abbrev LinkLog := Log LinkUse Op Op.Res LinkOutcome

/-- The request comes with the link. -/
def ComesWith (k : String) (t : ℕ) (l : LinkLog) : Prop := ∃ u, .start t u ∈ l ∧ u.Presents k

/-- A PUT with the link has succeeded. -/
def PutOk (k : String) (t : ℕ) (l : LinkLog) : Prop :=
  (∃ u, .start t u ∈ l ∧ u.Puts k) ∧ .done t (.ok ()) ∈ l

theorem putOk_of_log {k : String} {t : ℕ} {l : LinkLog}
    (h : ((Log.startOf t l).any (fun u => u.putsLink k) &&
      (Log.doneOf t l).any fun r => r.toBool) = true) : PutOk k t l := by
  obtain ⟨hs, hd⟩ := Bool.and_eq_true_iff.mp h
  obtain ⟨u, hu, hputs⟩ := (Option.any_eq_true _ _).mp hs
  obtain ⟨r, hr, hok⟩ := (Option.any_eq_true _ _).mp hd
  refine ⟨⟨u, Log.mem_of_startOf hu, LinkUse.puts_of_putsLink hputs⟩, Log.mem_of_doneOf ?_⟩
  cases r with
  | error e => cases hok
  | ok v => exact hr

/-- **What is asked of a link**: once a PUT has succeeded, it is expired in every state, no other
request with it is accepted, and so no two PUTs are. -/
structure LinkUsedUp (k : String) (w : World) (l : LinkLog) : Prop where
  expired : ∀ t, PutOk k t l → ExpiredBefore k (w.clock / 1000) w.db
  last : Log.Always (fun e l => ∀ t, e = .done t (.ok ()) → ComesWith k t l →
    ∀ t', t' ≠ t → ¬ PutOk k t' l) l
  once : ∀ t t', PutOk k t l → PutOk k t' l → t = t'

/-- The link is looked up only when no other request that has looked it up is in flight. -/
def LookedUpAlone (k : String) (_ : World) (l : LinkLog) (e : LinkEvent) : Prop :=
  ∀ t o x, e = .op t o x → linkTickets.Finds o x k → ComesWith k t l →
    ∀ t', t' ≠ t → ComesWith k t' l → linkTickets.Found t' k l → ¬ Log.Running t' l

/-! ### What each request promises -/

/-- The link has been looked up, and then it was not expired. -/
def ValidatedAs (ml : MagicLink) (tr : List (Seen Op Op.Res)) : Prop :=
  ∃ tr₂ p rest tr₁ ms, tr = tr₂ ++ ⟨.select .magicLinks p, .ok (ml :: rest)⟩ :: tr₁ ∧
    ⟨.now, ms⟩ ∈ tr₂ ∧ ms / 1000 ≤ ml.exp

theorem ValidatedAs.suffix {ml : MagicLink} {tr' : List (Seen Op Op.Res)} (h : ValidatedAs ml tr)
    (hs : tr <:+ tr') : ValidatedAs ml tr' := by
  obtain ⟨tr₂, p, rest, tr₁, ms, rfl, hms, hle⟩ := h
  obtain ⟨tr₃, rfl⟩ := hs
  exact ⟨tr₃ ++ tr₂, p, rest, tr₁, ms, by simp, List.mem_append_right _ hms, hle⟩

/-- A link is saved as it was found valid, but for the cookie, or with a time in the past, which
only the latter is done by a PUT. -/
def SavesLink (u : LinkUse) (tr : List (Seen Op Op.Res)) (l : MagicLink) : Prop :=
  ∃ req q ml, u = .link req q ∧ ValidatedAs ml tr ∧ ml.id = q.link ∧ l.id = ml.id ∧
    (q.isPut = false ∧ l.exp = ml.exp ∨ ∃ ms, ⟨.now, ms⟩ ∈ tr ∧ l.exp = ms / 1000 - 10)

structure LinkStep (u : LinkUse) (tr : List (Seen Op Op.Res)) (s : Seen Op Op.Res) : Prop where
  once : linkTickets.Once tr s
  saves : ∀ ss, s.1 = .execute ss → (∀ st ∈ ss, LowersLinks st) ∨
    ∃ l : MagicLink, ss = [l.saveStmt] ∧ SavesLink u tr l

/-- A request that is accepted has found its link valid, and a PUT has saved it again. -/
def LinkEnds (u : LinkUse) (tr : List (Seen Op Op.Res)) : Prop :=
  ∀ k, (u.Presents k → ∃ ml, ml.id = k ∧ ValidatedAs ml tr) ∧
    (u.Puts k → ∃ l : MagicLink, l.id = k ∧ ⟨.execute [l.saveStmt], .ok ()⟩ ∈ tr)

theorem once_of_stores {x : o.Res} (h : ∀ k, ¬ linkTickets.Stores o k) :
    linkTickets.Once tr ⟨o, x⟩ := fun k hk => absurd hk (h k)

theorem asideStep_of_touches {ts : List Table} {cs : List (CacheName × Slot)} (ho : o.Touches ts cs)
    (hts : Table.magicLinks ∉ ts) (x : o.Res) :
    AsideStep tr ⟨o, x⟩ := by
  have hss : ∀ ss, o = .execute ss → ∀ s ∈ ss, s.table ≠ .magicLinks := by
    rintro ss rfl s hs he
    exact hts (he ▸ ho s hs)
  refine ⟨once_of_stores ?_, ?_⟩
  · rintro k ⟨ss, rfl, s, hs, hst⟩
    have ht := hss ss rfl s hs
    cases s with
    | delete t p => exact hst
    | cascade t p => exact hst
    | insert t r => cases t <;> first | exact hst | exact ht rfl
    | upsert t r => cases t <;> first | exact hst | exact ht rfl
    | update t p f => cases t <;> first | exact hst | exact ht rfl
  · intro ss he s hs
    have ht := hss ss he s hs
    cases s with
    | delete t p => trivial
    | cascade t p => trivial
    | insert t r => trivial
    | upsert t r => cases t <;> trivial
    | update t p f => cases t <;> trivial

theorem asideStep_pure (ho : o.Touches [] []) (x : o.Res) :
    AsideStep tr ⟨o, x⟩ := asideStep_of_touches ho (by simp) x

theorem AsideStep.linkStep {u : LinkUse} {s : Seen Op Op.Res} (h : AsideStep tr s) :
    LinkStep u tr s := ⟨h.once, fun ss he => .inl (h.lowers ss he)⟩

theorem passkeyUserIdOf_touches (user : User) : Touches [] [] (passkeyUserIdOf user) := by
  unfold passkeyUserIdOf
  split
  · exact touches_ret _
  · exact ⟨trivial, fun _ => trivial⟩

theorem regStart_touches (userId passkeyName : String) :
    Touches [] [(.users, .user), (.webauthn, .credIds), (.webauthn, .webauthnReg)]
      (regStart userId passkeyName) := by
  have hcreds : ∀ id, Touches [] [(.webauthn, .credIds)] (PasskeyEntity.findCredIdsForUser id) :=
    fun id => touches_cached (touches_bind (touches_select _ _) fun _ => touches_ret _)
      (by simp [CacheVal.slot])
  refine touches_bind ((User.find_touches userId).mono (by simp) (by simp)) fun user => ?_
  refine touches_bind ((passkeyUserIdOf_touches user).mono (by simp) (by simp)) fun uuid => ?_
  refine touches_bind ((hcreds user.id).mono (by simp) (by simp)) fun credIds => ?_
  refine touches_bind ⟨trivial, fun _ => trivial⟩ fun r => ?_
  rcases r with msg | regState
  · exact touches_fail _
  · exact touches_bind (touches_cachePut (by simp [CacheVal.slot]) _) fun _ => touches_ret _

section Sees

variable {α : Type} {u : LinkUse} {data : AppState} {tr : List (Seen Op Op.Res)}

theorem sees_linkAside {ε : Type} {p : Prog Op Op.Res ε α} {ts : List Table}
    {cs : List (CacheName × Slot)} (hp : Touches ts cs p) (hts : Table.magicLinks ∉ ts) :
    Sees Op.Possible (LinkStep u) p (fun _ tr' => tr <:+ tr') tr := by
  have h : Sees Op.Possible (LinkStep u) p (fun _ _ => True) tr :=
    sees_of_within hp fun o ho tr x _ => (asideStep_of_touches ho hts x).linkStep
  exact sees_mono h.suffix fun _ _ _ h => h.1

theorem sees_linkPure {ε : Type} {p : Prog Op Op.Res ε α} (hp : Touches [] [] p) :
    Sees Op.Possible (LinkStep u) p (fun _ tr' => tr <:+ tr') tr := sees_linkAside hp (by simp)

theorem sees_findLink (id : String) :
    Sees Op.Possible (LinkStep u) (MagicLink.find id) (fun ml tr' => ml.id = id ∧
      ∃ p rest, tr' = ⟨.select .magicLinks p, .ok (ml :: rest)⟩ :: tr) tr := by
  have hselect : ∀ (p : MagicLink → Bool) (x : Except ErrorResponse (List MagicLink)),
      LinkStep u tr ⟨.select .magicLinks p, x⟩ := fun p x =>
    (asideStep_pure (o := .select .magicLinks p) trivial x).linkStep
  refine sees_mono (sees_fetchOne (hselect _)) fun ml tr' _ h => ?_
  obtain ⟨⟨rest, htr⟩, hid⟩ := h
  exact ⟨beq_iff_eq.mp hid, _, rest, htr⟩

theorem sees_validate (ml : MagicLink) (userId : String) (req : HttpRequest) (csrf : Bool)
    {p : MagicLink → Bool} {rest : List MagicLink} :
    Sees Op.Possible (LinkStep u) (ml.validate data userId req csrf)
      (fun _ tr' => ValidatedAs ml tr')
      (⟨.select .magicLinks p, .ok (ml :: rest)⟩ :: tr) := by
  have hnow : ∀ (tr : List (Seen Op Op.Res)) (ms : Int), LinkStep u tr ⟨.now, ms⟩ := fun tr ms =>
    (asideStep_pure (o := .now) trivial ms).linkStep
  have hcsrf : Touches [] [] (runIf (csrf = true) (answer (ml.validateLinkCsrf req))) :=
    touches_runIf (touches_answer _)
  unfold MagicLink.validate
  refine sees_bind sees_answer fun _ tr₁ _ h₁ => ?_
  refine sees_bind (sees_linkPure hcsrf) fun _ tr₂ _ h₂ => ?_
  refine sees_bind sees_throwIf fun _ tr₃ _ h₃ => ?_
  refine sees_bind (sees_unixTimestamp (hnow _)) fun now tr₄ _ h₄ => ?_
  obtain ⟨ms, rfl, rfl⟩ := h₄
  refine sees_bind sees_throwIf fun _ tr₅ _ h₅ => ?_
  refine sees_mono sees_throwIf fun _ tr₆ _ h₆ => ?_
  obtain ⟨tr₀, htr₂⟩ := h₂
  refine ⟨⟨.now, ms⟩ :: tr₀, p, rest, tr, ms, ?_, List.mem_cons_self, not_lt.mp h₅.2⟩
  rw [h₆.1, h₅.1, h₃.1, ← htr₂, h₁.1]
  rfl

/-- A link is saved as `SavesLink` says. -/
theorem sees_saveLink {l : MagicLink} (hl : SavesLink u tr l) :
    Sees Op.Possible (LinkStep u) l.save
      (fun _ tr' => tr' = ⟨.execute [l.saveStmt], .ok ()⟩ :: tr) tr := by
  refine sees_execute fun x => ⟨once_of_stores ?_, fun ss he => .inr ⟨l, ?_, hl⟩⟩
  · rintro k ⟨ss, he, s, hs, hst⟩
    cases he
    rw [List.mem_singleton.mp hs] at hst
    obtain ⟨r, -, hne, hk⟩ := hst
    exact hne hk
  · cases he
    rfl

theorem sees_invalidate {req : HttpRequest} {q : LinkRequest} {ml : MagicLink}
    (hvalid : ValidatedAs ml tr) (hid : ml.id = q.link) :
    Sees Op.Possible (LinkStep (.link req q)) ml.invalidate (fun _ tr' => tr <:+ tr' ∧
      ∃ l : MagicLink, l.id = ml.id ∧ ⟨.execute [l.saveStmt], .ok ()⟩ ∈ tr') tr := by
  have hnow : ∀ ms : Int, LinkStep (.link req q) tr ⟨.now, ms⟩ := fun ms =>
    (asideStep_pure (o := .now) trivial ms).linkStep
  refine sees_bind (sees_unixTimestamp hnow) fun now tr₁ _ h₁ => ?_
  obtain ⟨ms, rfl, rfl⟩ := h₁
  have hsaves : SavesLink (.link req q) (⟨.now, ms⟩ :: tr) { ml with exp := ms / 1000 - 10 } :=
    ⟨req, q, ml, rfl, hvalid.suffix (List.suffix_cons _ _), hid, rfl,
      .inr ⟨ms, List.mem_cons_self, rfl⟩⟩
  refine sees_mono (sees_saveLink hsaves) fun _ tr₂ _ h₂ => ?_
  rw [h₂]
  exact ⟨(List.suffix_cons _ _).trans (List.suffix_cons _ _), { ml with exp := ms / 1000 - 10 }, rfl,
    List.mem_cons_self⟩

theorem sees_getPwdReset (req : HttpRequest) (userId resetId : String) :
    Sees Op.Possible (LinkStep (.link req (.getPwdReset userId resetId)))
      (handleGetPwdReset data req userId resetId)
      (fun _ tr' => ∃ ml, ml.id = resetId ∧ ValidatedAs ml tr') tr := by
  refine sees_bind (sees_findLink resetId) fun ml tr₁ _ h₁ => ?_
  obtain ⟨hid, p, rest, rfl⟩ := h₁
  refine sees_bind (sees_validate ml userId req false) fun _ tr₂ _ h₂ => ?_
  refine sees_bind (sees_linkAside (User.find_touches _) (by simp)) fun user tr₃ _ h₃ => ?_
  refine sees_bind (sees_linkAside PasswordPolicy.find_touches (by simp)) fun rules tr₄ _ h₄ => ?_
  refine sees_bind (sees_linkPure (touches_getRand 48)) fun cookieVal tr₅ _ h₅ => ?_
  have hvalid : ValidatedAs ml tr₅ := h₂.suffix ((h₃.trans h₄).trans h₅)
  -- the link is saved with the time at which it was found valid
  have hsaves : SavesLink (.link req (.getPwdReset userId resetId)) tr₅
      { ml with cookie := some cookieVal } := ⟨req, _, ml, rfl, hvalid, hid, rfl, .inl ⟨rfl, rfl⟩⟩
  refine sees_bind (sees_saveLink hsaves) fun _ tr₆ _ h₆ => ?_
  refine sees_bind (sees_linkPure touches_unixTimestamp) fun now tr₇ _ h₇ => sees_ret ?_
  refine ⟨ml, hid, hvalid.suffix (List.IsSuffix.trans ?_ h₇)⟩
  rw [h₆]
  exact List.suffix_cons _ _

theorem sees_passkeyStart (req : HttpRequest) (userId : String) (reqData : WebauthnRegStartRequest) :
    Sees Op.Possible (LinkStep (.link req (.passkeyStart userId reqData)))
      (handlePutUserPasskeyStart data req userId reqData)
      (fun _ tr' => ∃ ml, ml.id = reqData.magicLinkId ∧ ValidatedAs ml tr') tr := by
  refine sees_bind (sees_linkAside (User.find_touches _) (by simp)) fun user _ _ _ => ?_
  refine sees_bind (sees_linkPure (touches_throwIf _ _)) fun _ tr₀ _ _ => ?_
  refine sees_bind (sees_findLink _) fun ml tr₁ _ h₁ => ?_
  obtain ⟨hid, p, rest, rfl⟩ := h₁
  refine sees_bind (sees_validate ml user.id req true) fun _ tr₂ _ h₂ => ?_
  refine sees_bind (sees_linkPure (touches_answer _)) fun usage tr₃ _ h₃ => ?_
  refine sees_bind (sees_linkPure (touches_answer _)) fun _ tr₄ _ h₄ => ?_
  refine sees_mono (sees_linkAside (regStart_touches _ _) (by simp)) fun _ tr₅ _ h₅ => ?_
  exact ⟨ml, hid, h₂.suffix ((h₃.trans h₄).trans h₅)⟩

theorem sees_regFinish (id passkeyName cred : String) :
    Sees Op.Possible (LinkStep u) (regFinish data id passkeyName cred) (fun _ tr' => tr <:+ tr')
      tr := by
  have hexec : ∀ (ss : List DbWrite) (tr : List (Seen Op Op.Res)),
      (∀ s ∈ ss, s.table ∈ [Table.users, .passkeys]) →
      Sees Op.Possible (LinkStep u) (execute ss) (fun _ tr' => tr <:+ tr') tr := by
    intro ss tr h
    have ht : Touches [Table.users, .passkeys] [] (execute ss) := touches_execute h
    exact sees_linkAside ht (by simp)
  suffices h : Sees Op.Possible (LinkStep u) (regFinish data id passkeyName cred)
      (fun _ _ => True) tr from sees_mono h.suffix fun _ _ _ h => h.1
  refine sees_bind (sees_linkAside (User.find_touches id) (by simp)) fun user _ _ _ => ?_
  refine sees_bind (sees_linkPure (touches_cacheGet _ _ _)) fun res _ _ _ => ?_
  refine sees_bind (sees_linkPure (touches_okOr _ _)) fun reg _ _ _ => ?_
  refine sees_bind (sees_linkPure (touches_cacheDel _ _)) fun _ _ _ _ => ?_
  refine sees_bind (sees_linkPure ⟨trivial, fun _ => trivial⟩) fun r _ _ _ => ?_
  rcases r with msg | ⟨pk, userVerified⟩
  · exact sees_fail
  refine sees_bind (sees_linkPure (touches_throwIf _ _)) fun _ _ _ _ => ?_
  refine sees_bind (hexec [] _ (by simp)) fun _ _ _ _ => ?_
  refine sees_bind (F := fun upd _ => ∀ s ∈ upd, s.table = Table.users) ?_ fun upd _ _ hupd => ?_
  · unfold linkPasskey
    split
    · exact sees_ret (by simp)
    · refine sees_bind (F := fun s _ => s.table = Table.users) ?_ fun s _ _ hs => sees_ret ?_
      · refine sees_bind (hexec [] _ (by simp)) fun _ _ _ _ => ?_
        refine sees_bind (sees_linkAside (User.saveCached_touches _ none) (by simp)) fun _ _ _ _ => ?_
        exact sees_ret rfl
      · rw [List.forall_mem_singleton]
        exact hs
  refine sees_bind (F := fun s _ => s.table = Table.passkeys) ?_ fun s _ _ hs => ?_
  · refine sees_bind (sees_linkPure touches_unixTimestamp) fun now _ _ _ => ?_
    refine sees_bind (hexec [] _ (by simp)) fun _ _ _ _ => ?_
    refine sees_bind (sees_linkPure (touches_cacheDel _ _)) fun _ _ _ _ => ?_
    exact sees_bind (sees_linkPure (touches_cacheDel _ _)) fun _ _ _ _ => sees_ret rfl
  refine sees_mono (hexec _ _ fun st hst => ?_) fun _ _ _ _ => trivial
  rcases List.mem_append.mp hst with hst | hst
  · rw [hupd st hst]
    simp
  · rw [List.mem_singleton.mp hst, hs]
    simp

theorem sees_passkeyFinish (req : HttpRequest) (userId : String)
    (reqData : WebauthnRegFinishRequest) :
    Sees Op.Possible (LinkStep (.link req (.passkeyFinish userId reqData)))
      (handlePutUserPasskeyFinish data req userId reqData)
      (fun _ tr' => (∃ ml, ml.id = reqData.magicLinkId ∧ ValidatedAs ml tr') ∧
        ∃ l : MagicLink, l.id = reqData.magicLinkId ∧ ⟨.execute [l.saveStmt], .ok ()⟩ ∈ tr') tr := by
  refine sees_bind (sees_findLink _) fun ml tr₁ _ h₁ => ?_
  obtain ⟨hid, p, rest, rfl⟩ := h₁
  refine sees_bind (sees_validate ml userId req true) fun _ tr₂ _ h₂ => ?_
  refine sees_bind (sees_regFinish _ _ _) fun _ tr₃ _ h₃ => ?_
  refine sees_bind (sees_linkPure (touches_answer _)) fun _ tr₄ _ h₄ => ?_
  have hvalid : ValidatedAs ml tr₄ := h₂.suffix (h₃.trans h₄)
  refine sees_bind (sees_invalidate hvalid hid) fun _ tr₅ _ h₅ => ?_
  obtain ⟨hs₅, l, hl, hmem⟩ := h₅
  refine sees_bind (sees_linkAside (User.find_touches _) (by simp)) fun user tr₆ _ h₆ => ?_
  refine sees_mono (sees_linkAside (User.save_touches data _ none) (by simp)) fun _ tr₇ _ h₇ => ?_
  exact ⟨⟨ml, hid, hvalid.suffix ((hs₅.trans h₆).trans h₇)⟩, l, hl.trans hid,
    (h₆.trans h₇).subset hmem⟩

theorem sees_passwordReset (req : HttpRequest) (userId : String) (reqData : PasswordResetRequest) :
    Sees Op.Possible (LinkStep (.link req (.passwordReset userId reqData)))
      (handlePutUserPasswordReset data req userId reqData)
      (fun _ tr' => (∃ ml, ml.id = reqData.magicLinkId ∧ ValidatedAs ml tr') ∧
        ∃ l : MagicLink, l.id = reqData.magicLinkId ∧ ⟨.execute [l.saveStmt], .ok ()⟩ ∈ tr') tr := by
  refine sees_bind (sees_linkAside (User.find_touches _) (by simp)) fun user _ _ _ => ?_
  refine sees_bind (sees_linkPure (user.resetMfa_touches _)) fun _ tr₀ _ _ => ?_
  refine sees_bind (sees_findLink _) fun ml tr₁ _ h₁ => ?_
  obtain ⟨hid, p, rest, rfl⟩ := h₁
  refine sees_bind (sees_validate ml user.id req true) fun _ tr₂ _ h₂ => ?_
  refine sees_bind (sees_linkAside (User.applyPasswordRules_touches _) (by simp))
    fun user tr₃ _ h₃ => ?_
  have hvalid : ValidatedAs ml tr₃ := h₂.suffix h₃
  refine sees_bind (sees_invalidate hvalid hid) fun _ tr₅ _ h₅ => ?_
  obtain ⟨hs₅, l, hl, hmem⟩ := h₅
  refine sees_bind (sees_linkAside (User.save_touches data _ none) (by simp)) fun _ tr₆ _ h₆ => ?_
  refine sees_bind (sees_linkAside (Session.invalidateForUser_touches _) (by simp))
    fun _ tr₇ _ h₇ => ?_
  refine sees_bind (sees_linkPure (touches_answer _)) fun usage tr₈ _ h₈ => ?_
  have hsuffix : tr₅ <:+ tr₈ := (h₆.trans h₇).trans h₈
  have hend : (∃ ml, ml.id = reqData.magicLinkId ∧ ValidatedAs ml tr₈) ∧
      ∃ l : MagicLink, l.id = reqData.magicLinkId ∧ ⟨.execute [l.saveStmt], .ok ()⟩ ∈ tr₈ :=
    ⟨⟨ml, hid, hvalid.suffix (hs₅.trans hsuffix)⟩, l, hl.trans hid, hsuffix.subset hmem⟩
  cases usage with
  | newUser uri => exact sees_ret hend
  | passwordReset uri => exact sees_ret hend
  | emailChange e => exact sees_ret hend

theorem sees_confirmEmail (req : HttpRequest) (userId confirmId : String) :
    Sees Op.Possible (LinkStep (.link req (.confirmEmail userId confirmId)))
      (User.confirmEmailAddress data req userId confirmId)
      (fun _ tr' => ∃ ml, ml.id = confirmId ∧ ValidatedAs ml tr') tr := by
  refine sees_bind (sees_findLink _) fun ml tr₁ _ h₁ => ?_
  obtain ⟨hid, p, rest, rfl⟩ := h₁
  refine sees_bind (sees_validate ml userId req false) fun _ tr₂ _ h₂ => ?_
  refine sees_bind (sees_linkPure (touches_answer _)) fun usage tr₃ _ h₃ => ?_
  refine sees_bind (sees_linkPure (touches_answer _)) fun email tr₄ _ h₄ => ?_
  refine sees_bind (sees_linkAside (User.find_touches _) (by simp)) fun user tr₅ _ h₅ => ?_
  refine sees_bind (sees_linkAside (User.save_touches data _ _) (by simp)) fun _ tr₆ _ h₆ => ?_
  have hvalid : ValidatedAs ml tr₆ := h₂.suffix (((h₃.trans h₄).trans h₅).trans h₆)
  refine sees_bind (sees_invalidate hvalid hid) fun _ tr₇ _ h₇ => ?_
  refine sees_bind (sees_linkAside (Session.invalidateForUser_touches _) (by simp))
    fun _ tr₈ _ h₈ => sees_ret ?_
  exact ⟨ml, hid, hvalid.suffix (h₇.1.trans h₈)⟩

/-- **Each request keeps its promises.** -/
theorem sees_linkUse (u : LinkUse) :
    Sees Op.Possible (LinkStep u) (u.prog data) (fun _ tr => LinkEnds u tr) [] := by
  cases u with
  | other p h =>
      exact sees_mono (seenWp_weaken (h []) fun _ _ hs => hs.linkStep) fun _ _ _ _ _ =>
        ⟨False.elim, False.elim⟩
  | link req q =>
      cases q with
      | getPwdReset userId resetId =>
          refine sees_bind (sees_getPwdReset req userId resetId) fun _ _ _ h => sees_ret ?_
          rintro k
          exact ⟨fun hk => hk ▸ h, fun hput => by cases hput.2⟩
      | passkeyStart userId reqData =>
          refine sees_bind (sees_passkeyStart req userId reqData) fun _ _ _ h => sees_ret ?_
          rintro k
          exact ⟨fun hk => hk ▸ h, fun hput => by cases hput.2⟩
      | passkeyFinish userId reqData =>
          refine sees_mono (sees_passkeyFinish req userId reqData) fun _ _ _ h k => ?_
          exact ⟨fun hk => hk ▸ h.1, fun hput => hput.1 ▸ h.2⟩
      | passwordReset userId reqData =>
          refine sees_bind (sees_passwordReset req userId reqData) fun _ _ _ h => sees_ret ?_
          rintro k
          exact ⟨fun hk => hk ▸ h.1, fun hput => hput.1 ▸ h.2⟩
      | confirmEmail userId confirmId =>
          refine sees_bind (sees_confirmEmail req userId confirmId) fun _ _ _ h => sees_ret ?_
          rintro k
          exact ⟨fun hk => hk ▸ h, fun hput => by cases hput.2⟩

end Sees

/-! ### The invariant -/

/-- The request is in flight and has looked the link up. -/
structure Holds (k : String) (t : ℕ) (l : LinkLog) : Prop where
  running : Log.Running t l
  presents : ComesWith k t l
  found : linkTickets.Found t k l

/-- A PUT has saved the link. -/
structure UsedUpBy (k : String) (t : ℕ) (l : LinkLog) : Prop where
  puts : ∃ u, .start t u ∈ l ∧ u.Puts k
  saved : ∃ m : MagicLink, m.id = k ∧ .op t (.execute [m.saveStmt]) (.ok ()) ∈ l

/-- The request has read this link. -/
def HasRead (t : ℕ) (ml : MagicLink) (l : LinkLog) : Prop :=
  ∃ p rest, .op t (.select .magicLinks p) (.ok (ml :: rest)) ∈ l

/-- What holds of the link `k` in every state, if it is looked up alone. -/
structure LinkInv (k : String) (w₀ w : World) (l : LinkLog) : Prop where
  starts : ∀ t u u', .start t u ∈ l → .start t u' ∈ l → u = u'
  tickets : linkTickets.Inv w₀ w l
  known : ∀ t, linkTickets.Found t k l → linkTickets.Known w₀ k l
  clock : ∀ t (ms : Int), .op t .now ms ∈ l → ms ≤ w.clock
  single : ∀ t t', Holds k t l → Holds k t' l → t = t'
  found : ∀ t, UsedUpBy k t l → linkTickets.Found t k l
  expired : ∀ t, UsedUpBy k t l → ExpiredBefore k (w.clock / 1000) w.db
  /-- the others have read an expired link -/
  stale : ∀ t t' ml, t' ≠ t → UsedUpBy k t l → Holds k t' l → HasRead t' ml l → ml.id = k →
    ml.exp < w.clock / 1000
  /-- and have not found it valid -/
  rejected : ∀ t t' ml, t' ≠ t → UsedUpBy k t l → Holds k t' l → ml.id = k →
    ¬ ValidatedAs ml (seenBy t' l)
  done : ∀ t, PutOk k t l → UsedUpBy k t l
  last : Log.Always (fun e l => ∀ t, e = .done t (.ok ()) → ComesWith k t l →
    ∀ t', t' ≠ t → ¬ PutOk k t' l) l
  once : ∀ t t', PutOk k t l → PutOk k t' l → t = t'

section Step

variable {k : String} {w₀ w w' : World} {l : LinkLog} {t t' : ℕ} {u : LinkUse} {o : Op} {x : o.Res}
  {ml m : MagicLink} {t₁ t₂ : ℕ}

theorem running_op : Log.Running t' (.op t o x :: l) ↔ Log.Running t' l := by
  simp [Log.Running]

theorem start_mem_op : (.start t' u : LinkEvent) ∈ .op t o x :: l ↔ .start t' u ∈ l := by simp

theorem comesWith_op : ComesWith k t' (.op t o x :: l) ↔ ComesWith k t' l := by
  simp [ComesWith]

theorem putOk_op : PutOk k t' (.op t o x :: l) ↔ PutOk k t' l := by
  simp [PutOk]

theorem linkFound_op (h : linkTickets.Found t' k (.op t o x :: l)) :
    linkTickets.Found t' k l ∨ t' = t ∧ linkTickets.Finds o x k := by
  obtain ⟨o', x', hmem, hf⟩ := h
  rcases List.mem_cons.mp hmem with he | hmem
  · cases he
    exact .inr ⟨rfl, hf⟩
  · exact .inl ⟨o', x', hmem, hf⟩

theorem Holds.op (h : Holds k t' (.op t o x :: l)) :
    Holds k t' l ∨ t' = t ∧ linkTickets.Finds o x k := by
  rcases linkFound_op h.found with hf | hf
  · exact .inl ⟨running_op.mp h.running, comesWith_op.mp h.presents, hf⟩
  · exact .inr hf

theorem UsedUpBy.op (h : UsedUpBy k t' (.op t o x :: l)) :
    UsedUpBy k t' l ∨ t' = t ∧ (∃ u, .start t u ∈ l ∧ u.Puts k) ∧
      ∃ m : MagicLink, m.id = k ∧ (⟨o, x⟩ : Seen Op Op.Res) = ⟨.execute [m.saveStmt], .ok ()⟩ := by
  obtain ⟨⟨u, hu, hputs⟩, m, hm, hmem⟩ := h
  rw [start_mem_op] at hu
  rcases List.mem_cons.mp hmem with he | hmem
  · cases he
    exact .inr ⟨rfl, ⟨u, hu, hputs⟩, m, hm, rfl⟩
  · exact .inl ⟨⟨u, hu, hputs⟩, m, hm, hmem⟩

theorem HasRead.found (h : HasRead t ml l) (hk : ml.id = k) :
    linkTickets.Found t k l := by
  obtain ⟨p, rest, hmem⟩ := h
  exact ⟨_, _, hmem, p, ml, rest, rfl, hk⟩

theorem ValidatedAs.hasRead (h : ValidatedAs ml (seenBy t l)) : HasRead t ml l := by
  obtain ⟨tr₂, p, rest, tr₁, ms, htr, -, -⟩ := h
  exact ⟨p, rest, mem_of_seenBy (by rw [htr]; simp)⟩

/-- What has just been seen completes the validation, or it was complete. -/
theorem validatedAs_cons (h : ValidatedAs ml (⟨o, x⟩ :: tr)) :
    ValidatedAs ml tr ∨
      (∃ ms : Int, (⟨o, x⟩ : Seen Op Op.Res) = ⟨.now, ms⟩ ∧ ms / 1000 ≤ ml.exp) ∧
      ∃ p rest, ⟨.select .magicLinks p, .ok (ml :: rest)⟩ ∈ tr := by
  obtain ⟨tr₂, p, rest, tr₁, ms, htr, hms, hle⟩ := h
  rcases tr₂ with - | ⟨v, tr₂⟩
  · cases hms
  · obtain ⟨rfl, rfl⟩ := List.cons.inj htr
    rcases List.mem_cons.mp hms with he | hms
    · exact .inr ⟨⟨ms, he.symm, hle⟩, p, rest, by simp⟩
    · exact .inl ⟨tr₂, p, rest, tr₁, ms, rfl, hms, hle⟩

theorem holds_of_saves (hu : .start t u ∈ l) (hrun : Log.Running t l)
    (hm : SavesLink u (seenBy t l) m) (hk : m.id = k) :
    Holds k t l := by
  obtain ⟨req, q, ml, rfl, hvalid, hq, hid, -⟩ := hm
  exact ⟨hrun, ⟨_, hu, hq.symm.trans (hid.symm.trans hk)⟩,
    hvalid.hasRead.found (hid.symm.trans hk)⟩

theorem UsedUpBy.append (h : UsedUpBy k t l) (e : LinkLog) : UsedUpBy k t (e ++ l) := by
  obtain ⟨⟨u, hu, hputs⟩, m, hm, hmem⟩ := h
  exact ⟨⟨u, List.mem_append_right e hu, hputs⟩, m, hm, List.mem_append_right e hmem⟩

theorem ExpiredBefore.mono {n n' : Int} {db : Db} (h : ExpiredBefore k n db) (hn : n ≤ n') :
    ExpiredBefore k n' db := fun r hr hk => lt_of_lt_of_le (h r hr hk) hn

theorem saveStmt_inj {m' : MagicLink} (h : m.saveStmt = m'.saveStmt) :
    m.id = m'.id ∧ m.exp = m'.exp := by
  simp only [MagicLink.saveStmt, DbWrite.update.injEq, heq_eq_eq, true_and] at h
  obtain ⟨hp, hf⟩ := h
  have hid := congrFun hp m
  have hexp := congrArg MagicLink.exp (congrFun hf m)
  simp only [beq_self_eq_true] at hid
  exact ⟨beq_iff_eq.mp hid.symm, hexp⟩

/-- The statement of a saved link comes from no other promise. -/
theorem LinkStep.saved {x : Except ErrorResponse Unit}
    (h : LinkStep u tr ⟨.execute [m.saveStmt], x⟩) :
    ∃ m', m'.id = m.id ∧ m'.exp = m.exp ∧ SavesLink u tr m' := by
  rcases h.saves _ rfl with hl | ⟨m', he, hm'⟩
  · -- it makes a link live longer that expires earlier
    have hle := hl _ (List.mem_singleton_self _) { m with exp := m.exp - 1 } (beq_self_eq_true _)
    have hle : m.exp ≤ m.exp - 1 := hle
    omega
  · obtain ⟨hid, hexp⟩ := saveStmt_inj (List.singleton_inj.mp he)
    exact ⟨m', hid.symm, hexp.symm, hm'⟩

theorem links_kept (ho : ∀ ss, o ≠ .execute ss) (h : sem o w x w') :
    w'.db .magicLinks = w.db .magicLinks := congrFun (sem_db h ho) _

/-- **A link that is used up stays expired.** -/
theorem LinkInv.expired_op (h₀ : ∀ k, linkTickets.Holds w₀ k → linkTickets.Issued w₀ k)
    (hI : LinkInv k w₀ w l) (hu : .start t u ∈ l) (hrun : Log.Running t l) (hx : sem o w x w')
    (hG : LinkStep u (seenBy t l) ⟨o, x⟩) (ht' : UsedUpBy k t' l) :
    ExpiredBefore k (w'.clock / 1000) w'.db := by
  have hclock : w.clock / 1000 ≤ w'.clock / 1000 := by
    have := sem_clock hx
    omega
  have hexp := (hI.expired t' ht').mono hclock
  by_cases ho : ∃ ss, o = .execute ss
  · obtain ⟨ss, rfl⟩ := ho
    rcases sem_committed hx with rfl | ⟨db, hdb, rfl⟩
    · exact hexp
    rcases hG.saves ss rfl with hl | ⟨m, rfl, hm⟩
    · refine expired_applyAll hdb hexp (fun s hs hst => ?_) hl
      exact hI.tickets.not_known h₀ hG.once ⟨ss, rfl, s, hs, hst⟩ (hI.known t' (hI.found t' ht'))
    · refine expired_save hdb (fun _ => hexp) fun hk => ?_
      have hholds := holds_of_saves hu hrun hm hk
      obtain ⟨req, q, ml, rfl, hvalid, hq, hid, ⟨hput, he⟩ | ⟨ms, hms, he⟩⟩ := hm
      · -- it was found valid, so it is this request that has used it up, and that is a PUT
        by_cases htt : t' = t
        · subst htt
          obtain ⟨u', hu', hputs⟩ := ht'.puts
          obtain rfl := hI.starts _ _ _ hu' hu
          rw [hputs.2] at hput
          cases hput
        · exact absurd hvalid (hI.rejected t' t ml (Ne.symm htt) ht' hholds (hid.symm.trans hk))
      · have hle := hI.clock t ms (mem_of_seenBy hms)
        show m.exp < w.clock / 1000
        omega
  · push Not at ho
    intro r hr hk
    rw [links_kept ho hx] at hr
    exact hexp r hr hk

theorem LinkInv.expired_put (hI : LinkInv k w₀ w l) (hu : .start t u ∈ l)
    (hx : sem (.execute [m.saveStmt]) w (.ok ()) w') (hm : m.id = k)
    (hG : LinkStep u (seenBy t l) ⟨.execute [m.saveStmt], .ok ()⟩)
    (hputs : ∃ u, .start t u ∈ l ∧ u.Puts k) : ExpiredBefore k (w'.clock / 1000) w'.db := by
  obtain ⟨db, hdb, rfl⟩ := sem_execute_ok.mp hx
  obtain ⟨m', hid, hexp, req, q, ml, rfl, -, -, -, ⟨hput, -⟩ | ⟨ms, hms, he⟩⟩ := hG.saved
  · obtain ⟨u', hu', hputs⟩ := hputs
    obtain rfl := hI.starts _ _ _ hu' hu
    rw [hputs.2] at hput
    cases hput
  · have hle := hI.clock t ms (mem_of_seenBy hms)
    refine expired_save hdb.applied (fun hne => absurd hm hne) fun _ => ?_
    show m.exp < w.clock / 1000
    omega

/-- The request that uses the link up now is the only one that holds it. -/
theorem LinkInv.used_alone (hI : LinkInv k w₀ w l) (hu : .start t u ∈ l) (hrun : Log.Running t l)
    (hG : LinkStep u (seenBy t l) ⟨o, x⟩) (hne : t₂ ≠ t₁)
    (hthis : t₁ = t ∧ (∃ u, .start t u ∈ l ∧ u.Puts k) ∧
      ∃ m : MagicLink, m.id = k ∧ (⟨o, x⟩ : Seen Op Op.Res) = ⟨.execute [m.saveStmt], .ok ()⟩)
    (hholds : Holds k t₂ (.op t o x :: l)) : False := by
  obtain ⟨rfl, -, m, hm, he⟩ := hthis
  cases he
  obtain ⟨m', hid, -, hsaves⟩ := hG.saved
  have hthis := holds_of_saves hu hrun hsaves (hid.trans hm)
  rcases hholds.op with hold | ⟨rfl, -⟩
  · exact hne (hI.single _ _ hold hthis)
  · exact hne rfl

/-- A link that is looked up alone is held by one request. -/
theorem LinkInv.single_op (hI : LinkInv k w₀ w l) (hC : LookedUpAlone k w l (.op t o x))
    (h₁ : Holds k t₁ (.op t o x :: l)) (h₂ : Holds k t₂ (.op t o x :: l)) :
    t₁ = t₂ := by
  rcases h₁.op with o₁ | ⟨rfl, f₁⟩ <;> rcases h₂.op with o₂ | ⟨rfl, f₂⟩
  · exact hI.single t₁ t₂ o₁ o₂
  · by_contra hne
    exact hC t₂ o x rfl f₂ (comesWith_op.mp h₂.presents) t₁ hne o₁.presents o₁.found o₁.running
  · by_contra hne
    exact hC t₁ o x rfl f₁ (comesWith_op.mp h₁.presents) t₂ (Ne.symm hne) o₂.presents o₂.found
      o₂.running
  · rfl

theorem Holds.of_op (h : Holds k t' (.op t o x :: l)) (hread : HasRead t' ml l) (hk : ml.id = k) :
    Holds k t' l :=
  ⟨running_op.mp h.running, comesWith_op.mp h.presents, hread.found hk⟩

/-- Those that read the link after its use read one that has expired. -/
theorem LinkInv.stale_op (hI : LinkInv k w₀ w l) (hu : .start t u ∈ l) (hrun : Log.Running t l)
    (hx : sem o w x w') (hG : LinkStep u (seenBy t l) ⟨o, x⟩) (hne : t₂ ≠ t₁)
    (hused : UsedUpBy k t₁ (.op t o x :: l)) (hholds : Holds k t₂ (.op t o x :: l))
    (hread : HasRead t₂ ml (.op t o x :: l)) (hk : ml.id = k) : ml.exp < w'.clock / 1000 := by
  have hclock : w.clock / 1000 ≤ w'.clock / 1000 := by
    have := sem_clock hx
    omega
  rcases hused.op with hold | hthis
  · obtain ⟨p, rest, hmem⟩ := hread
    rcases List.mem_cons.mp hmem with he | hmem
    · cases he
      rcases (sem_select.mp hx).2 with hrows | ⟨e, he⟩
      · have hr : ml ∈ (w.db .magicLinks).filter p := by
          rw [← Except.ok.inj hrows]
          exact List.mem_cons_self
        exact lt_of_lt_of_le (hI.expired t₁ hold ml (List.mem_of_mem_filter hr) hk) hclock
      · cases he
    · have hread : HasRead t₂ ml l := ⟨p, rest, hmem⟩
      exact lt_of_lt_of_le (hI.stale t₁ t₂ ml hne hold (hholds.of_op hread hk) hread hk) hclock
  · exact (hI.used_alone hu hrun hG hne hthis hholds).elim

/-- They do not find it valid: the clock has gone on since it was used up. -/
theorem LinkInv.rejected_op (hI : LinkInv k w₀ w l) (hu : .start t u ∈ l)
    (hrun : Log.Running t l) (hx : sem o w x w') (hG : LinkStep u (seenBy t l) ⟨o, x⟩) (hne : t₂ ≠ t₁) (hused : UsedUpBy k t₁ (.op t o x :: l))
    (hholds : Holds k t₂ (.op t o x :: l)) (hk : ml.id = k) :
    ¬ ValidatedAs ml (seenBy t₂ (.op t o x :: l)) := by
  intro hvalid
  rcases hused.op with hold | hthis
  · by_cases htt : t₂ = t
    · subst htt
      rw [seenBy_op_self] at hvalid
      rcases validatedAs_cons hvalid with hvalid | ⟨⟨ms, he, hle⟩, p, rest, hmem⟩
      · exact hI.rejected t₁ t₂ ml hne hold (hholds.of_op hvalid.hasRead hk) hk hvalid
      · cases he
        have hread : HasRead t₂ ml l := ⟨p, rest, mem_of_seenBy hmem⟩
        have hlt := hI.stale t₁ t₂ ml hne hold (hholds.of_op hread hk) hread hk
        have hge := (sem_now.mp hx).1
        omega
    · rw [seenBy_op_of_ne htt] at hvalid
      exact hI.rejected t₁ t₂ ml hne hold (hholds.of_op hvalid.hasRead hk) hk hvalid
  · exact hI.used_alone hu hrun hG hne hthis hholds

/-- **One operation keeps the invariant.** -/
theorem LinkInv.op (h₀ : ∀ k, linkTickets.Holds w₀ k → linkTickets.Issued w₀ k)
    (hI : LinkInv k w₀ w l) (hu : .start t u ∈ l) (hrun : Log.Running t l) (hx : sem o w x w')
    (hC : LookedUpAlone k w l (.op t o x)) (hG : LinkStep u (seenBy t l) ⟨o, x⟩) :
    LinkInv k w₀ w' (.op t o x :: l) where
  starts t₁ u₁ u₂ h₁ h₂ := hI.starts t₁ u₁ u₂ (start_mem_op.mp h₁) (start_mem_op.mp h₂)
  tickets := hI.tickets.op linkTickets_lawful h₀ hx hG.once
  known t₁ h := by
    rcases linkFound_op h with h | ⟨-, hf⟩
    · exact (hI.known t₁ h).append [_]
    · exact (hI.tickets.known k (linkTickets_lawful.found hx k hf)).append [_]
  clock t₁ ms h := by
    rcases List.mem_cons.mp h with he | h
    · cases he
      rw [(sem_now.mp hx).2]
    · exact le_trans (hI.clock t₁ ms h) (sem_clock hx)
  single t₁ t₂ := hI.single_op hC
  found t₁ h := by
    rcases h.op with h | ⟨rfl, -, m, hm, he⟩
    · exact (hI.found t₁ h).append [_]
    · cases he
      obtain ⟨m', hid, -, hsaves⟩ := hG.saved
      exact (holds_of_saves hu hrun hsaves (hid.trans hm)).found.append [_]
  expired t₁ h := by
    rcases h.op with h | ⟨rfl, hputs, m, hm, he⟩
    · exact hI.expired_op h₀ hu hrun hx hG h
    · cases he
      exact hI.expired_put hu hx hm hG hputs
  stale t₁ t₂ ml := hI.stale_op hu hrun hx hG
  rejected t₁ t₂ ml := hI.rejected_op hu hrun hx hG
  done t₁ h := (hI.done t₁ (putOk_op.mp h)).append [_]
  last := ⟨fun _ he => (by cases he), hI.last⟩
  once t₁ t₂ h₁ h₂ := hI.once t₁ t₂ (putOk_op.mp h₁) (putOk_op.mp h₂)

theorem LinkInv.init : LinkInv k w₀ w₀ ([] : LinkLog) where
  starts t u u' h := by cases h
  tickets := .init
  known t h := by
    obtain ⟨o, x, h, -⟩ := h
    cases h
  clock t ms h := by cases h
  single t t' h := by
    obtain ⟨o, x, h, -⟩ := h.found
    cases h
  found t h := by
    obtain ⟨m, -, h⟩ := h.saved
    cases h
  expired t h := by
    obtain ⟨m, -, h⟩ := h.saved
    cases h
  stale t t' ml _ h := by
    obtain ⟨m, -, h⟩ := h.saved
    cases h
  rejected t t' ml _ h := by
    obtain ⟨m, -, h⟩ := h.saved
    cases h
  done t h := by cases h.2
  last := trivial
  once t t' h := by cases h.2

/-- An event that is no operation keeps what only operations change. -/
theorem LinkInv.event {e : LinkEvent} (hI : LinkInv k w₀ w l) (he : ∀ t o x, e ≠ .op t o x)
    (hstarts : ∀ t u u', .start t u ∈ e :: l → .start t u' ∈ e :: l → u = u')
    (hholds : ∀ t, Holds k t (e :: l) → Holds k t l)
    (hused : ∀ t, UsedUpBy k t (e :: l) → UsedUpBy k t l)
    (hdone : ∀ t, PutOk k t (e :: l) → UsedUpBy k t l)
    (hlast : ∀ t, e = .done t (.ok ()) → ComesWith k t l → ∀ t', t' ≠ t → ¬ PutOk k t' l)
    (honce : ∀ t t', PutOk k t (e :: l) → PutOk k t' (e :: l) → t = t') :
    LinkInv k w₀ w (e :: l) := by
  have hop : ∀ {t o x}, .op t o x ∈ e :: l → .op t o x ∈ l := fun h =>
    (List.mem_cons.mp h).resolve_left fun h => he _ _ _ h.symm
  have hread : ∀ {t ml}, HasRead t ml (e :: l) → HasRead t ml l := fun h => by
    obtain ⟨p, rest, h⟩ := h
    exact ⟨p, rest, hop h⟩
  have hseen : ∀ t, seenBy t (e :: l) = seenBy t l := fun t => by
    cases e with
    | start t' u => exact seenBy_start
    | op t' o x => exact absurd rfl (he t' o x)
    | done t' a => exact seenBy_done
  refine ⟨hstarts, hI.tickets.event he, ?_, fun t ms h => hI.clock t ms (hop h),
    fun t t' h h' => hI.single t t' (hholds t h) (hholds t' h'),
    fun t h => (hI.found t (hused t h)).append [e], fun t h => hI.expired t (hused t h), ?_, ?_,
    fun t h => (hdone t h).append [e], ⟨hlast, hI.last⟩, honce⟩
  · rintro t ⟨o, x, h, hf⟩
    exact (hI.known t ⟨o, x, hop h, hf⟩).append [e]
  · exact fun t t' ml hne h h' hr => hI.stale t t' ml hne (hused t h) (hholds t' h') (hread hr)
  · intro t t' ml hne h h' hk hvalid
    rw [hseen] at hvalid
    exact hI.rejected t t' ml hne (hused t h) (hholds t' h') hk hvalid

theorem LinkInv.start (hI : LinkInv k w₀ w l) (ht : Log.Fresh t l) :
    LinkInv k w₀ w (.start t u :: l) := by
  have hne : ∀ {e : LinkEvent}, e ∈ l → e.tid ≠ t := fun he => ht _ he
  have hcons : ∀ {t₁ u₁}, (.start t₁ u₁ : LinkEvent) ∈ .start t u :: l → t₁ ≠ t → .start t₁ u₁ ∈ l :=
    fun h hne => (List.mem_cons.mp h).resolve_left fun he => hne (by cases he; rfl)
  have hdone : ∀ {t₁ a}, (.done t₁ a : LinkEvent) ∈ .start t u :: l → .done t₁ a ∈ l := fun h =>
    (List.mem_cons.mp h).resolve_left fun he => by cases he
  have hop : ∀ {t₁ o x}, (.op t₁ o x : LinkEvent) ∈ .start t u :: l → .op t₁ o x ∈ l := fun h =>
    (List.mem_cons.mp h).resolve_left fun he => by cases he
  have hputok : ∀ t₁, PutOk k t₁ (.start t u :: l) → PutOk k t₁ l := by
    rintro t₁ ⟨⟨u₁, hu₁, hputs⟩, hd⟩
    have hd := hdone hd
    exact ⟨⟨u₁, hcons hu₁ (hne hd), hputs⟩, hd⟩
  refine hI.event (fun _ _ _ h => by cases h) ?_ ?_ ?_ (fun t₁ h => hI.done t₁ (hputok t₁ h))
    (fun _ h => by cases h) fun t₁ t₂ h₁ h₂ => hI.once t₁ t₂ (hputok t₁ h₁) (hputok t₂ h₂)
  · intro t₁ u₁ u₂ h₁ h₂
    rcases List.mem_cons.mp h₁ with he₁ | h₁ <;> rcases List.mem_cons.mp h₂ with he₂ | h₂
    · cases he₁
      cases he₂
      rfl
    · cases he₁
      exact absurd rfl (hne h₂)
    · cases he₂
      exact absurd rfl (hne h₁)
    · exact hI.starts t₁ u₁ u₂ h₁ h₂
  · rintro t₁ ⟨⟨-, hno⟩, ⟨u₁, hu₁, hk⟩, o, x, hmem, hf⟩
    have hmem := hop hmem
    have hu₁ := hcons hu₁ (hne hmem)
    exact ⟨⟨⟨u₁, hu₁⟩, fun a ha => hno a (List.mem_cons_of_mem _ ha)⟩, ⟨u₁, hu₁, hk⟩, o, x, hmem, hf⟩
  · rintro t₁ ⟨⟨u₁, hu₁, hputs⟩, m, hm, hmem⟩
    have hmem := hop hmem
    exact ⟨⟨u₁, hcons hu₁ (hne hmem), hputs⟩, m, hm, hmem⟩

theorem LinkInv.finish (hI : LinkInv k w₀ w l) (hu : .start t u ∈ l) (hrun : Log.Running t l)
    {r : LinkOutcome} (hF : ∀ b, r = .ok b → LinkEnds u (seenBy t l)) :
    LinkInv k w₀ w (.done t r :: l) := by
  have hstart : ∀ {t₁ u₁}, (.start t₁ u₁ : LinkEvent) ∈ .done t r :: l → .start t₁ u₁ ∈ l := fun h =>
    (List.mem_cons.mp h).resolve_left fun he => by cases he
  have hop : ∀ {t₁ o x}, (.op t₁ o x : LinkEvent) ∈ .done t r :: l → .op t₁ o x ∈ l := fun h =>
    (List.mem_cons.mp h).resolve_left fun he => by cases he
  have hputok : ∀ t₁, PutOk k t₁ (.done t r :: l) → PutOk k t₁ l ∨ t₁ = t ∧ r = .ok () ∧ u.Puts k := by
    rintro t₁ ⟨⟨u₁, hu₁, hputs⟩, hd⟩
    rcases List.mem_cons.mp hd with he | hd
    · cases he
      obtain rfl := hI.starts _ _ _ (hstart hu₁) hu
      exact .inr ⟨rfl, rfl, hputs⟩
    · exact .inl ⟨⟨u₁, hstart hu₁, hputs⟩, hd⟩
  -- whoever is accepted has found the link valid
  have hlast : r = .ok () → ComesWith k t l → ∀ t', t' ≠ t → ¬ PutOk k t' l := by
    rintro rfl ⟨u₁, hu₁, hk⟩ t' hne hput
    obtain rfl := hI.starts _ _ _ hu₁ hu
    obtain ⟨ml, hml, hvalid⟩ := ((hF () rfl) k).1 hk
    exact hI.rejected t' t ml (Ne.symm hne) (hI.done t' hput)
      ⟨hrun, ⟨_, hu, hk⟩, hvalid.hasRead.found hml⟩ hml hvalid
  refine hI.event (fun _ _ _ h => by cases h) (fun t₁ u₁ u₂ h₁ h₂ => hI.starts t₁ u₁ u₂ (hstart h₁)
    (hstart h₂)) ?_ ?_ ?_ ?_ ?_
  · rintro t₁ ⟨⟨⟨u₁, hu₁⟩, hno⟩, ⟨u₂, hu₂, hk⟩, o, x, hmem, hf⟩
    exact ⟨⟨⟨u₁, hstart hu₁⟩, fun a ha => hno a (List.mem_cons_of_mem _ ha)⟩, ⟨u₂, hstart hu₂, hk⟩,
      o, x, hop hmem, hf⟩
  · rintro t₁ ⟨⟨u₁, hu₁, hputs⟩, m, hm, hmem⟩
    exact ⟨⟨u₁, hstart hu₁, hputs⟩, m, hm, hop hmem⟩
  · intro t₁ h
    rcases hputok t₁ h with h | ⟨rfl, rfl, hputs⟩
    · exact hI.done t₁ h
    · obtain ⟨m, hm, hmem⟩ := ((hF () rfl) k).2 hputs
      exact ⟨⟨u, hu, hputs⟩, m, hm, mem_of_seenBy hmem⟩
  · rintro t₁ he hk
    cases he
    exact hlast rfl hk
  · intro t₁ t₂ h₁ h₂
    rcases hputok t₁ h₁ with o₁ | ⟨rfl, hr, hp₁⟩ <;> rcases hputok t₂ h₂ with o₂ | ⟨rfl, hr, hp₂⟩
    · exact hI.once t₁ t₂ o₁ o₂
    · by_contra hne
      exact hlast hr ⟨u, hu, hp₂.presents⟩ t₁ hne o₁
    · by_contra hne
      exact hlast hr ⟨u, hu, hp₁.presents⟩ t₂ (Ne.symm hne) o₂
    · rfl

end Step

/-! ### All interleavings -/

/-- **A link is used once**: if it is looked up only while no other request that has looked it up is
in flight, it is expired from the first successful PUT on, and no other request is accepted with it
after that. -/
theorem link_used_once (data : AppState) (k : String) {w₀ : World}
    (h₀ : ∀ r ∈ w₀.db .magicLinks, r.id ∈ w₀.issued)
    {P : Pool LinkUse Op Op.Res World (Fault ErrorResponse) Unit}
    (h : Run (LinkUse.prog data) sem (LookedUpAlone k) (init w₀) P) :
    LinkUsedUp k P.world P.log := by
  have hissued : ∀ k, linkTickets.Holds w₀ k → linkTickets.Issued w₀ k := by
    rintro k ⟨r, hr, rfl⟩
    exact h₀ r hr
  have hI := (Run.inv_of_seen (A := fun _ => Op.Possible) (G := LinkStep)
    (F := fun u r tr => ∀ b, r = .ok b → LinkEnds u tr) (I := LinkInv k w₀) sees_linkUse
    (fun w l t u o x w' _ _ hx _ => ⟨w, w', hx⟩) .init (fun w l t u hI ht _ => hI.start ht)
    (fun w l t u o x w' hI hu hrun hx hC hG => hI.op hissued hu hrun hx hC hG)
    (fun w l t u r hI hu hrun _ hF => hI.finish hu hrun hF) h).1
  exact ⟨fun t ht => hI.expired t (hI.done t ht), hI.last, hI.once⟩

/-! ### Two PUTs, and a GET that comes too late -/

/-- The link of alice for a new password. -/
def resetWorld : World := { linkWorld "password_reset" with issued := ["link"] }

def putReset (password : String) : LinkUse :=
  .link linkReq (.passwordReset "alice" ⟨"link", password, none⟩)

def getReset : LinkUse := .link linkReq (.getPwdReset "alice" "link")

/-- The request does operations that are answered so. -/
def opMoves (t : ℕ) (cs : List Choice) : List (Move LinkUse Choice) := cs.map (.op t)

/-- A PUT is scheduled alone, and then a GET, which finds the link expired. -/
def putMoves : List (Move LinkUse Choice) :=
  .start 0 (putReset "p") ::
    opMoves 0 [.ok, .ok, .ok, .ok, .time 0, .ok, .ok, .ok, .rand "hash", .time 0, .ok, .ok, .ok, .ok,
      .time 0, .ok] ++
    [.done 0, .start 1 getReset, .op 1 .ok, .op 1 (.time 0), .done 1]

theorem link_used_once_put : ∃ P : Pool LinkUse Op Op.Res World (Fault ErrorResponse) Unit,
    Run (LinkUse.prog sampleState) sem (LookedUpAlone "link") (init resetWorld) P ∧
      PutOk "link" 0 P.log ∧ LinkUsedUp "link" P.world P.log := by
  obtain ⟨P, hrun, hP⟩ := exists_run_of_moves (C := LookedUpAlone "link") (LinkUse.prog sampleState)
    Op.run Solo resetWorld putMoves
    (fun P => (Log.startOf 0 P.log).any (fun u => u.putsLink "link") &&
      ((Log.doneOf 0 P.log).any fun r => r.toBool)) (by decide +kernel)
    fun w l e h t o x he hf _ t' hne _ _ => not_running_of_solo (he ▸ h) hne
  refine ⟨P, hrun, ?_, link_used_once sampleState "link" (fun r hr => ?_) hrun⟩
  · exact putOk_of_log hP
  · rw [List.mem_singleton.mp hr]
    exact List.mem_singleton_self _

/-- Two PUTs and a GET check the link before one of the PUTs has saved it. -/
def overlapMoves : List (Move LinkUse Choice) :=
  List.flatten [
    [.start 0 (putReset "p"), .start 1 (putReset "q"), .start 2 getReset],
    opMoves 0 [.ok, .ok, .ok, .ok, .time 0],
    opMoves 1 [.ok, .ok, .time 0],
    opMoves 2 [.ok, .time 0],
    opMoves 0 [.ok, .ok, .ok, .rand "hash", .time 0, .ok, .ok, .ok, .ok, .time 0, .ok],
    [.done 0],
    opMoves 1 [.ok, .rand "hash", .time 0, .ok, .ok, .ok, .ok, .time 0, .ok],
    [.done 1],
    opMoves 2 [.ok, .ok, .rand "cookiecookiecookiecookiecookiecookiecookiecookie", .ok, .time 0],
    [.done 2]]

/-- **A link is used twice**: two PUTs are accepted that have read the link before it was
invalidated, and the GET makes it valid again. -/
theorem link_used_twice : ∃ P : Pool LinkUse Op Op.Res World (Fault ErrorResponse) Unit,
    Run (LinkUse.prog sampleState) sem (fun _ _ _ => True) (init resetWorld) P ∧
      PutOk "link" 0 P.log ∧ PutOk "link" 1 P.log ∧
      (∃ r ∈ P.world.db .magicLinks, r.id = "link" ∧ P.world.clock / 1000 < r.exp) ∧
      ¬ LinkUsedUp "link" P.world P.log := by
  obtain ⟨P, hrun, hP⟩ := exists_run_of_moves (C := fun _ _ _ => True) (LinkUse.prog sampleState)
    Op.run (fun _ _ _ => true) resetWorld overlapMoves
    (fun P => ([0, 1].all fun t => (Log.startOf t P.log).any (fun u => u.putsLink "link") &&
        ((Log.doneOf t P.log).any fun r => r.toBool)) &&
      (P.world.db .magicLinks).any fun r => r.id == "link" && decide (P.world.clock / 1000 < r.exp))
    (by decide +kernel) (fun _ _ _ _ => trivial)
  obtain ⟨hputs, hvalid⟩ := Bool.and_eq_true_iff.mp hP
  have h₀ := putOk_of_log (List.all_eq_true.mp hputs 0 (by simp))
  have h₁ := putOk_of_log (List.all_eq_true.mp hputs 1 (by simp))
  obtain ⟨r, hr, hv⟩ := List.any_eq_true.mp hvalid
  obtain ⟨hid, hexp⟩ := Bool.and_eq_true_iff.mp hv
  refine ⟨P, hrun, h₀, h₁, ⟨r, hr, beq_iff_eq.mp hid, of_decide_eq_true hexp⟩, fun hno => ?_⟩
  cases hno.once 0 1 h₀ h₁

end Rauthy
