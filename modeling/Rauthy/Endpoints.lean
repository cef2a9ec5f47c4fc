/-
Rauthy/Endpoints.lean

The endpoints behind a check of the principal: the handlers of `rauthy-handlers/src` that manage
API keys, roles, groups, scopes, clients, users, sessions and keys, and those of a user's own
account.  Each handler asks the principal that the middleware has made of the request for its
permission before it does anything else.

An `Endpoint` is such a handler with its permission.  It carries the proof that its statements
are confined to the tables that the permission is for, so that the table of permissions is the
only place that says who may change what.  Events that a handler sends are left out.
-/
import Rauthy.ApiAccess
import Rauthy.ApiKeyCache
import Rauthy.AttrCaches
import Rauthy.Bootstrap
import Rauthy.Credentials
import Rauthy.DeviceExpiry
import Rauthy.Encryption
import Rauthy.Lib.Guards
import Rauthy.Pagination
import Rauthy.PasswordPolicies
import Rauthy.PasswordReset
import Rauthy.Revocation

namespace Rauthy

open Prog Pool

/-! ### Permissions -/

/-- What a handler asks its principal for. -/
inductive Permission where
  | adminSession
  | apiKeyOrAdminSession (group : AccessGroup) (right : AccessRights)
  /-- any authenticated session -/
  | sessionAuth
  /-- the user itself -/
  | isUser (id : String)
  /-- an authenticated session that is the user's, or comes with the right to read users:
  `get_user_by_id` -/
  | readUser (id : String)
  deriving DecidableEq

def Permission.check (data : AppState) (p : KeyPrincipal) : Permission → Except ErrorResponse Unit
  | adminSession => p.toPrincipal.validateAdminSession data
  | apiKeyOrAdminSession group right => p.validateApiKeyOrAdminSession data group right
  | sessionAuth => p.toPrincipal.validateSessionAuth.bind fun _ => .ok ()
  | isUser id => p.toPrincipal.validateSessionAuth.bind fun _ => p.toPrincipal.isUser id
  | readUser id =>
      p.toPrincipal.validateSessionAuth.bind fun _ =>
        match p.validateApiKeyOrAdminSession data .users .read with
        | .ok _ => .ok ()
        | .error _ => p.toPrincipal.isUser id

/-- The tables that an API key with this right can change. -/
def keyTables : AccessGroup → AccessRights → List Table
  | _, .read => []
  | .clients, .delete => [.clients, .clientsDyn, .refreshTokensDevices, .devices]
  | .clients, _ => [.clients]
  | .groups, .create => [.groups]
  -- users are saved with their new groups or roles, and the sessions of disabled ones end
  | .groups, _ => [.groups, .users, .sessions, .refreshTokens]
  | .roles, .create => [.roles]
  | .roles, _ => [.roles, .users, .sessions, .refreshTokens]
  | .scopes, .create => [.scopes]
  | .scopes, _ => [.scopes, .clients]
  | .secrets, .update => [.apiKeys, .authProviders, .clients, .jwks, .passwordPolicy]
  | .sessions, .delete => [.sessions, .refreshTokens]
  | .users, .create => [.users, .magicLinks]
  | .users, .update => updateTables
  | .users, .delete => [.users, .usersValues, .userAttrValues, .recentPasswords, .magicLinks,
      .sessions, .passkeys, .refreshTokens, .refreshTokensDevices, .devices]
  | _, _ => []

/-- The tables that the handlers with this permission can change. -/
def Permission.tables : Permission → List Table
  | adminSession => [.apiKeys]
  | apiKeyOrAdminSession group right => keyTables group right
  | sessionAuth => [.users, .sessions, .refreshTokens]
  | isUser _ => updateTables
  | readUser _ => []

/-! ### What the middleware sees -/

section Evidence

variable (data : AppState) (req : HttpRequest)

/-- The key that the header names has been read, its secret fits, and it had not expired. -/
def SeesApiKey (k : ApiKey) (tr : List (Seen Op Op.Res)) : Prop :=
  ∃ header token, req.authorization = some header ∧ apiKeyValue header = .ok (some token) ∧
    KeyValidated data token k tr ∧
    ∀ exp, k.expires = some exp → ∃ ms : Int, ⟨.now, ms⟩ ∈ tr ∧ ms / 1000 ≤ exp

/-- An authenticated session of an admin, marked as MFA if that is enforced -/
def SeesAdmin (tr : List (Seen Op Op.Res)) : Prop :=
  ∃ s, SeesSession data req s tr ∧ s.state = .auth ∧ roleAdmin ∈ s.rolesAsVec.toOption.getD [] ∧
    (data.adminForceMfa = true → s.isMfa = true)

/-- An authenticated session of the user -/
def SeesUser (id : String) (tr : List (Seen Op Op.Res)) : Prop :=
  ∃ s, SeesSession data req s tr ∧ s.state = .auth ∧ s.userId = some id

/-- The request has no API key. -/
def HttpRequest.HasNoApiKey : Prop :=
  ∀ header, req.authorization = some header → apiKeyValue header = .ok none

/-- What has been seen shows the permission. -/
def Permission.Shown (tr : List (Seen Op Op.Res)) : Permission → Prop
  | adminSession => SeesAdmin data req tr
  | apiKeyOrAdminSession group right =>
      (∃ k, SeesApiKey data req k tr ∧ k.validateAccess group right = .ok ()) ∨
        req.HasNoApiKey ∧ SeesAdmin data req tr
  | sessionAuth => ∃ s, SeesSession data req s tr ∧ s.state = .auth
  | isUser id => SeesUser data req id tr
  -- an API key alone is not enough
  | readUser id => ∃ s, SeesSession data req s tr ∧ s.state = .auth ∧
      ((∃ k, SeesApiKey data req k tr ∧ k.validateAccess .users .read = .ok ()) ∨
        SeesAdmin data req tr ∨ s.userId = some id)

/-- Where a principal comes from. -/
structure PrincipalSeen (p : KeyPrincipal) (tr : List (Seen Op Op.Res)) : Prop where
  session : ∀ s, p.session = some s → ∃ s₀ lastSeen, SeesSession data req s₀ tr ∧
    s = { s₀ with lastSeen }
  roles : ∀ s, p.session = some s → p.roles = s.rolesAsVec.toOption.getD []
  key : ∀ k, p.apiKey = some k → SeesApiKey data req k tr
  noKey : p.apiKey = none → req.HasNoApiKey

end Evidence

/-- What the middleware does: it looks for the API key and for the session, and notes the use of
the session. -/
def Op.OfMiddleware : Op → Prop
  | .now => True
  | .select t _ => t = .apiKeys ∨ t = .sessions
  | .execute ss => ∃ s : Session, ss = [.upsert .sessions s]
  | .cacheGet c k => (c = .c12hr ∧ ∃ name, k = ApiKeyEntity.cacheIdx name) ∨
      (c = .sessions ∧ ∃ sid, k = Session.cacheIdx sid)
  | .cachePut c k v => (c = .c12hr ∧ ∃ name key, k = ApiKeyEntity.cacheIdx name ∧ v = .apiKey key) ∨
      (c = .sessions ∧ ∃ s : Session, k = Session.cacheIdx s.id ∧ v = .session s)
  | _ => False

section Middleware

variable {data : AppState} {req : HttpRequest} {tr : List (Seen Op Op.Res)}
  {G : List (Seen Op Op.Res) → Seen Op Op.Res → Prop}
  {v : Seen Op Op.Res}

theorem SeesSession.cons {s : Session} (h : SeesSession data req s tr) :
    SeesSession data req s (v :: tr) := by
  obtain ⟨sid, hcookie, hcsrf, tr₂, ms, tr₁, rfl, hread, hvalid⟩ := h
  exact ⟨sid, hcookie, hcsrf, v :: tr₂, ms, tr₁, rfl, hread, hvalid⟩

theorem SeesApiKey.mono {k : ApiKey} {tr' : List (Seen Op Op.Res)} (h : SeesApiKey data req k tr)
    (hsub : ∀ v ∈ tr, v ∈ tr') : SeesApiKey data req k tr' := by
  obtain ⟨header, token, hheader, htoken, ⟨name, secret, hsplit, hsecret, hfound⟩, hexp⟩ := h
  refine ⟨header, token, hheader, htoken, ⟨name, secret, hsplit, hsecret, ?_⟩, fun exp he => ?_⟩
  · rcases hfound with hcached | ⟨r, hr, hkey⟩
    · exact .inl (hsub _ hcached)
    · exact .inr ⟨r, hr.mono hsub, hkey⟩
  · obtain ⟨ms, hmem, hle⟩ := hexp exp he
    exact ⟨ms, hsub _ hmem, hle⟩

theorem SeesAdmin.cons (h : SeesAdmin data req tr) :
    SeesAdmin data req (v :: tr) := by
  obtain ⟨s, hs, hrest⟩ := h
  exact ⟨s, hs.cons, hrest⟩

theorem SeesUser.cons {id : String} (h : SeesUser data req id tr) :
    SeesUser data req id (v :: tr) := by
  obtain ⟨s, hs, hrest⟩ := h
  exact ⟨s, hs.cons, hrest⟩

theorem Permission.Shown.cons {needs : Permission} (h : needs.Shown data req tr) :
    needs.Shown data req (v :: tr) := by
  have hkey : ∀ group right,
      (∃ k, SeesApiKey data req k tr ∧ k.validateAccess group right = .ok ()) →
        ∃ k, SeesApiKey data req k (v :: tr) ∧ k.validateAccess group right = .ok () := by
    rintro group right ⟨k, hk, haccess⟩
    exact ⟨k, hk.mono fun _ hv => List.mem_cons_of_mem _ hv, haccess⟩
  cases needs with
  | adminSession => exact SeesAdmin.cons h
  | apiKeyOrAdminSession group right =>
      exact h.imp (hkey group right) fun h => ⟨h.1, h.2.cons⟩
  | sessionAuth =>
      obtain ⟨s, hs, hauth⟩ := h
      exact ⟨s, hs.cons, hauth⟩
  | isUser id => exact SeesUser.cons h
  | readUser id =>
      obtain ⟨s, hs, hauth, hrest⟩ := h
      exact ⟨s, hs.cons, hauth, hrest.imp (hkey .users .read) fun h => h.imp_left SeesAdmin.cons⟩

/-- The evidence for a permission -/
def Permission.evidence (data : AppState) (req : HttpRequest) (needs : Permission) :
    Evidence Op Op.Res where
  holds tr := needs.Shown data req tr
  grows h := h.cons

theorem allowsKeys (hG : ∀ tr v, v.1.OfMiddleware → G tr v) : AllowsKeys data G where
  now _ _ := hG _ _ trivial
  find _ _ _ := hG _ _ (.inl rfl)
  get _ name _ := hG _ _ (.inl ⟨rfl, name, rfl⟩)
  fill _ name _ key _ _ _ := hG _ _ (.inl ⟨rfl, name, key, rfl, rfl⟩)

theorem allowsSessions (hG : ∀ tr v, v.1.OfMiddleware → G tr v) : AllowsSessions G where
  now _ _ := hG _ _ trivial
  find _ _ _ := hG _ _ (.inr rfl)
  get _ sid _ := hG _ _ (.inr ⟨rfl, sid, rfl⟩)
  read _ s _ _ := hG _ _ (.inr ⟨rfl, s, rfl, rfl⟩)
  seen _ _ _ _ _ :=
    sees_bind (sees_execute fun _ => hG _ _ ⟨_, rfl⟩) fun _ _ _ _ =>
      sees_mono (sees_cachePut fun _ => hG _ _ (.inr ⟨rfl, _, rfl, rfl⟩)) fun _ _ _ _ => trivial

theorem sees_keyOfHeaders (hG : ∀ tr v, v.1.OfMiddleware → G tr v) :
    Sees Op.Possible G (getApiKeyFromHeaders data req)
      (fun x tr' => (∀ k, x = some k → SeesApiKey data req k tr') ∧
        (x = none → req.HasNoApiKey)) tr := by
  unfold getApiKeyFromHeaders
  rcases hheader : req.authorization with - | header
  · apply sees_ret
    refine ⟨fun k hk => (by cases hk), fun _ header hh => ?_⟩
    rw [hheader] at hh
    cases hh
  · refine sees_bind sees_answer fun value tr₁ _ ⟨htr, hvalue⟩ => ?_
    rcases value with - | token
    · apply sees_ret
      refine ⟨fun k hk => (by cases hk), fun _ header' hh => ?_⟩
      rw [hheader] at hh
      cases hh
      exact hvalue
    · refine sees_bind (sees_validated (allowsKeys hG)) fun k tr₂ _ ⟨hvalidated, hexp⟩ => sees_ret ?_
      refine ⟨fun k' hk' => ?_, fun he => by cases he⟩
      cases hk'
      exact ⟨header, token, hheader, hvalue, hvalidated, hexp⟩

/-- The middleware keeps to its own operations, and it has seen what it hands on. -/
theorem sees_getKeyPrincipal (hG : ∀ tr v, v.1.OfMiddleware → G tr v) :
    Sees Op.Possible G (getKeyPrincipal data req) (fun p tr' => PrincipalSeen data req p tr')
      tr := by
  refine sees_bind (sees_keyOfHeaders hG) fun key tr₁ _ ⟨hkey, hnone⟩ => ?_
  refine sees_bind (F := fun p tr' => (∀ v ∈ tr₁, v ∈ tr') ∧
    (∀ s, p.session = some s → ∃ s₀ lastSeen, SeesSession data req s₀ tr' ∧
      s = { s₀ with lastSeen }) ∧
    ∀ s, p.session = some s → p.roles = s.rolesAsVec.toOption.getD []) ?_
    fun p tr₂ _ ⟨hsub, hsession, hroles⟩ => sees_ret ?_
  · refine sees_bind (sees_sessionOfCookie (allowsSessions hG)) fun x tr₂ hsub hx => ?_
    rcases x with - | s
    · exact sees_ret ⟨hsub, fun s hs => (by cases hs), fun s hs => (by cases hs)⟩
    · refine sees_ret ⟨hsub, fun s' hs' => ?_, fun s' hs' => ?_⟩
      · exact hx s' hs'
      · cases hs'
        rfl
  · exact ⟨hsession, hroles, fun k hk => (hkey k hk).mono hsub, hnone⟩

section Checks

variable {p : KeyPrincipal} {u : Unit}

theorem Principal.isUser_ok {p : Principal} {id : String} (h : p.isUser id = .ok u) :
    p.userId = some id := by
  rw [Principal.isUser] at h
  split at h
  · cases h
  · next hid => exact not_not.mp hid

theorem PrincipalSeen.sessionAuth (h : PrincipalSeen data req p tr) {s : Session}
    (hs : p.toPrincipal.validateSessionAuth = .ok s) :
    ∃ s₀ lastSeen, SeesSession data req s₀ tr ∧ s = { s₀ with lastSeen } ∧ s₀.state = .auth ∧
      p.session = some s ∧ p.roles = s₀.rolesAsVec.toOption.getD [] := by
  obtain ⟨hsession, hstate⟩ := Principal.validateSessionIn_ok.mp hs
  obtain ⟨s₀, lastSeen, hseen, rfl⟩ := h.session s hsession
  have hroles := h.roles _ hsession
  exact ⟨s₀, lastSeen, hseen, rfl, List.mem_singleton.mp hstate, hsession, hroles⟩

theorem PrincipalSeen.admin (h : PrincipalSeen data req p tr)
    (hcheck : p.toPrincipal.validateAdminSession data = .ok u) : SeesAdmin data req tr := by
  obtain ⟨s, hsession, hstate, hadmin, hmfa⟩ := Principal.validateAdminSession_ok hcheck
  have hauth : p.toPrincipal.validateSessionAuth = .ok s :=
    Principal.validateSessionIn_ok.mpr ⟨hsession, by rw [hstate]; exact List.mem_singleton_self _⟩
  obtain ⟨s₀, lastSeen, hseen, rfl, hstate₀, -, hroles⟩ := h.sessionAuth hauth
  exact ⟨s₀, hseen, hstate₀, hroles ▸ hadmin, hmfa⟩

theorem PrincipalSeen.user (h : PrincipalSeen data req p tr) {id : String}
    (hcheck : (p.toPrincipal.validateSessionAuth.bind fun _ => p.toPrincipal.isUser id) = .ok u) :
    SeesUser data req id tr := by
  rcases hauth : p.toPrincipal.validateSessionAuth with e | s
  · rw [hauth] at hcheck
    cases hcheck
  obtain ⟨s₀, lastSeen, hseen, rfl, hstate, hsession, -⟩ := h.sessionAuth hauth
  refine ⟨s₀, hseen, hstate, ?_⟩
  rw [hauth] at hcheck
  have huser := Principal.isUser_ok hcheck
  rw [Principal.userId, hsession] at huser
  exact huser

/-- The rights of a key are asked first, and if the request has a key they decide. -/
theorem PrincipalSeen.apiKeyOrAdmin (h : PrincipalSeen data req p tr) {group : AccessGroup}
    {right : AccessRights} (hcheck : p.validateApiKeyOrAdminSession data group right = .ok u) :
    (∃ k, SeesApiKey data req k tr ∧ k.validateAccess group right = .ok ()) ∨
      req.HasNoApiKey ∧ SeesAdmin data req tr := by
  rcases hk : p.apiKey with - | k
  · rw [KeyPrincipal.validateApiKeyOrAdminSession, KeyPrincipal.validateApiKey, hk] at hcheck
    exact .inr ⟨h.noKey hk, h.admin hcheck⟩
  · exact .inl ⟨k, h.key k hk, (KeyPrincipal.validateApiKeyOrAdminSession_ok hk ..).mp hcheck⟩

/-- **A check that passes has its evidence.** -/
theorem PrincipalSeen.shown (h : PrincipalSeen data req p tr) {needs : Permission}
    (hcheck : needs.check data p = .ok u) : needs.Shown data req tr := by
  cases needs with
  | adminSession => exact h.admin hcheck
  | apiKeyOrAdminSession group right => exact h.apiKeyOrAdmin hcheck
  | sessionAuth =>
      rcases hauth : p.toPrincipal.validateSessionAuth with e | s
      · rw [Permission.check, hauth] at hcheck
        cases hcheck
      · obtain ⟨s₀, -, hseen, -, hstate, -⟩ := h.sessionAuth hauth
        exact ⟨s₀, hseen, hstate⟩
  | isUser id => exact h.user hcheck
  | readUser id =>
      rcases hauth : p.toPrincipal.validateSessionAuth with e | s
      · rw [Permission.check, hauth] at hcheck
        cases hcheck
      · obtain ⟨s₀, lastSeen, hseen, rfl, hstate, hsession, -⟩ := h.sessionAuth hauth
        refine ⟨s₀, hseen, hstate, ?_⟩
        rw [Permission.check, hauth] at hcheck
        rcases hrights : p.validateApiKeyOrAdminSession data .users .read with e | u'
        · have huser : p.toPrincipal.userId = some id := by
            apply Principal.isUser_ok (u := u)
            simpa [hrights, Except.bind] using hcheck
          rw [Principal.userId, hsession] at huser
          exact .inr (.inr huser)
        · rcases h.apiKeyOrAdmin hrights with hkey | ⟨-, hadmin⟩
          · exact .inl hkey
          · exact .inr (.inl hadmin)

end Checks

end Middleware

/-! ### Endpoints -/

/-- All statements of the program are on these tables, and what it returns satisfies `F`. -/
def Confined {ε α : Type} (ts : List Table) (p : M ε α) (F : α → Prop := fun _ => True) : Prop :=
  ∀ tr, Sees Op.Possible (fun _ v => v.1.tables ⊆ ts) p (fun a _ => F a) tr

section Confined

variable {ε α β : Type} {ts ts' : List Table} {F : α → Prop} {F' : β → Prop}
  {p : M ε α} {f : α → M ε β}
  {cs : List (CacheName × Slot)}

theorem confined_ret {a : α} (h : F a) : Confined ts (ret a : M ε α) F := fun _ => sees_ret h

theorem confined_bind (hp : Confined ts p F) (hf : ∀ a, F a → Confined ts (f a) F') :
    Confined ts (p >>= f) F' :=
  fun tr => sees_bind (hp tr) fun a tr' _ ha => hf a ha tr'

theorem Confined.done {f : α → β} (hp : Confined ts p) :
    Confined ts (p >>= fun a => ret (f a)) := confined_bind hp fun _ _ => confined_ret trivial

theorem Confined.mono (hp : Confined ts' p F) (hts : ts' ⊆ ts) : Confined ts p F :=
  fun tr => seenWp_weaken (hp tr) fun _ _ hv => List.Subset.trans hv hts

/-- What does not depend on the values that are returned. -/
theorem Touches.confined (hp : Touches ts' cs p) (hts : ts' ⊆ ts) :
    Confined ts p := by
  intro tr
  apply sees_of_within hp
  intro o ho tr' x _
  cases o with
  | execute ss =>
      intro t ht
      obtain ⟨s, hs, rfl⟩ := List.mem_map.mp ht
      exact hts (ho s hs)
  | _ => exact List.nil_subset ts

theorem confined_execute {ss : List DbWrite} (h : ∀ s ∈ ss, s.table ∈ ts) :
    Confined ts (execute ss) := by
  have hexecute : Touches ts [] (execute ss) := touches_execute h
  exact hexecute.confined (List.Subset.refl ts)

theorem confined_after (hp : Touches [] cs p) (hf : ∀ a, Confined ts (f a) F') :
    Confined ts (p >>= f) F' :=
  confined_bind (hp.confined (List.nil_subset ts)) fun a _ => hf a

theorem confined_reads (hp : Touches [] [] p) (hf : ∀ a, Confined ts (f a) F') :
    Confined ts (p >>= f) F' := confined_after hp hf

theorem confined_writes {ss : List DbWrite} {f : Unit → M ErrorResponse β}
    (h : ∀ s ∈ ss, s.table ∈ ts) (hf : ∀ a, Confined ts (f a) F') :
    Confined ts (execute ss >>= f) F' := confined_bind (confined_execute h) fun a _ => hf a

theorem confined_cachePut (c : CacheName) (k : String) (v : CacheVal) :
    Confined ts (cachePut c k v) :=
  (touches_cachePut (List.mem_singleton_self _) k).confined (List.nil_subset ts)

theorem confined_cacheDel (c : CacheName) (k : String) :
    Confined ts (cacheDel c k) := by
  have hdel : Touches [] [] (cacheDel c k) := touches_cacheDel c k
  exact hdel.confined (List.nil_subset ts)

theorem confined_runIf {c : Prop} [Decidable c] {p : M ε Unit}
    (hp : c → Confined ts p) : Confined ts (runIf c p) :=
  fun tr => sees_runIf (fun hc => hp hc tr) fun _ => trivial

theorem confined_forEach {f : α → M ε Unit} {l : List α}
    (hf : ∀ a, Confined ts (f a)) : Confined ts (forEach f l) := by
  induction l with
  | nil => exact confined_ret trivial
  | cons a l ih => exact confined_bind (hf a) fun _ _ => ih

end Confined

/-- A handler behind the check of its principal. -/
structure Endpoint (α : Type) where
  needs : Permission
  handler : KeyPrincipal → M ErrorResponse α
  confined : ∀ p, Confined needs.tables (handler p)

namespace Endpoint

variable {α : Type} (data : AppState) (req : HttpRequest)

/-- The request goes through the middleware first. -/
def run (e : Endpoint α) : M ErrorResponse α := do
  let principal ← getKeyPrincipal data req
  answer (e.needs.check data principal)
  e.handler principal

variable {data req}

/-- **The handler comes after the evidence.** -/
theorem sees_run (e : Endpoint α) :
    Sees Op.Possible (Guarded Op.OfMiddleware (e.needs.evidence data req)) (e.run data req)
      (fun _ tr => e.needs.Shown data req tr) [] := by
  apply sees_bind (sees_getKeyPrincipal fun _ _ hv => .inl hv)
  intro p tr _ hp
  apply sees_guarded (E := e.needs.evidence data req)
  apply sees_mono sees_answer
  rintro u tr' - ⟨rfl, hcheck⟩
  exact hp.shown hcheck

/-- Besides the session of the request, only the tables of the permission change. -/
theorem sees_run_confined (e : Endpoint α) :
    Sees Op.Possible (fun _ v => v.1.OfMiddleware ∨ v.1.tables ⊆ e.needs.tables) (e.run data req)
      (fun _ _ => True) [] := by
  refine sees_bind (sees_getKeyPrincipal fun _ _ hv => .inl hv) fun p tr _ _ => ?_
  refine sees_bind (F := fun _ _ => True) ?_ fun _ tr' _ _ => ?_
  · exact sees_mono sees_answer fun _ _ _ _ => trivial
  · exact seenWp_weaken (e.confined p tr') fun _ _ hv => .inr hv

end Endpoint

end Rauthy
