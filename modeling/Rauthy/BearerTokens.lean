/-
Rauthy/BearerTokens.lean

Access tokens at the userinfo endpoint: the tokens that `TokenSet::from_user` issues, and
`get_userinfo`, to which they are presented before they expire.  Both take any client.

The grants find their client with `find_maybe_ephemeral`.  With `USERINFO_STRICT`,
`get_userinfo` looks for it with `find`, which knows the clients of the database only.

Main results:
  * `bearer_accepted`: the tokens that are accepted, of users and clients that stay enabled;
  * `ephemeral_refused`: a token of an ephemeral client that is not.
-/
import Rauthy.Userinfo

namespace Rauthy

open Prog

/-! ### What a program does before a deadline -/

section Deadline

variable {ε α β : Type} {deadline : Int} {w : World}
  {p : M ε α} {F : α → World → Prop}

/-- Without failing stores, `p` succeeds, unless it ends after the deadline. -/
def Succeeds (deadline : Int) (p : M ε α) (w : World) (F : α → World → Prop) : Prop :=
  Outcomes semUp p w fun r w' => w'.clock < deadline → ∃ a, r = .ok a ∧ F a w'

theorem exec_clock_up {w' : World} {r : Except (Fault ε) α} (h : Exec semUp p w r w') :
    w.clock ≤ w'.clock :=
  exec_clock (h.mono fun _ _ _ _ hs => hs.1)

theorem succeeds_bind {f : α → M ε β} {G : β → World → Prop} (hp : Succeeds deadline p w F)
    (hf : ∀ a w₁, w.clock ≤ w₁.clock → F a w₁ → Succeeds deadline (f a) w₁ G) :
    Succeeds deadline (p >>= f) w G := by
  intro r w' hx hlate
  rcases exec_bind.mp hx with ⟨e, rfl, hx₁⟩ | ⟨a, w₁, hx₁, hk⟩
  · obtain ⟨a, ha, -⟩ := hp _ _ hx₁ hlate
    cases ha
  · have hclock : w₁.clock ≤ w'.clock := exec_clock_up hk
    obtain ⟨a', ha, hF⟩ := hp _ _ hx₁ (by omega)
    cases ha
    exact hf a w₁ (exec_clock_up hx₁) hF r w' hk hlate

theorem Succeeds.imp {G : α → World → Prop} (h : Succeeds deadline p w F)
    (hFG : ∀ a w', F a w' → G a w') : Succeeds deadline p w G := by
  intro r w' hx hlate
  obtain ⟨a, rfl, hF⟩ := h r w' hx hlate
  exact ⟨a, rfl, hFG a w' hF⟩

theorem succeeds_ret {a : α} (h : F a w) :
    Succeeds deadline (ret a : M ε α) w F :=
  outcomes_ret fun _ => ⟨a, rfl, h⟩

/-- A value that is an answer, at least before the deadline. -/
theorem succeeds_answer {x : Except ErrorResponse α} {a : α} (hx : w.clock < deadline → x = .ok a)
    (h : F a w) : Succeeds deadline (answer x) w F := by
  refine outcomes_answer (fun b hb hlate => ?_) fun e he hlate => ?_
  · rw [hx hlate] at hb
    cases hb
    exact ⟨a, rfl, h⟩
  · rw [hx hlate] at he
    cases he

theorem succeeds_throwIf {c : Prop} [Decidable c] {e : Fault ε} {F : Unit → World → Prop}
    (hc : ¬ c) (h : F () w) : Succeeds deadline (throwIf c e) w F :=
  outcomes_throwIf (fun _ _ => ⟨(), rfl, h⟩) fun hc' => absurd hc' hc

theorem succeeds_unixTimestamp :
    Succeeds deadline (unixTimestamp : M ε Int) w
      fun now w' => now = w'.clock / 1000 ∧ ∃ ms, w' = { w with clock := ms } :=
  answered_unixTimestamp fun ms _ _ => ⟨_, rfl, rfl, ms, rfl⟩

theorem succeeds_fetchOne {t : Table} {p : Row t → Bool} (h : ∃ r ∈ w.db t, p r = true) :
    Succeeds deadline (fetchOne t p) w fun r w' => r ∈ w.db t ∧ p r = true ∧ w' = w := by
  refine answered_fetchOne (fun r hr _ => ?_) fun hnone => ?_
  · obtain ⟨hmem, hp⟩ := List.mem_filter.mp (List.mem_of_head? hr)
    exact ⟨r, rfl, hmem, hp, rfl⟩
  · obtain ⟨r, hmem, hp⟩ := h
    have hr : r ∈ (w.db t).filter p := List.mem_filter.mpr ⟨hmem, hp⟩
    rw [List.head?_eq_none_iff.mp hnone] at hr
    cases hr

theorem succeeds_mapErr {f : ErrorResponse → ErrorResponse} {p : M ErrorResponse α}
    (h : Succeeds deadline p w F) : Succeeds deadline (mapErr f p) w F := by
  refine outcomes_mapErr (outcomes_mono h fun r w' hr hlate => ?_)
  obtain ⟨a, rfl, hF⟩ := hr hlate
  exact ⟨a, rfl, hF⟩

/-- A row that is read through a cache: a copy, or the row. -/
theorem succeeds_cached {c : CacheName} {k : String} {as : CacheVal → Option α}
    {wrap : α → CacheVal} {load : M ErrorResponse α} {G : α → Prop}
    (hhit : ∀ v, w.cache c k = some v → ∃ a, as v = some a ∧ G a)
    (hload : ∀ w₁, w₁.db = w.db → Succeeds deadline load w₁ fun a w₂ => G a ∧ w₂ = w₁) :
    Succeeds deadline (cached c k as wrap load) w fun a w' => G a ∧ w'.db = w.db ∧
      ∀ c' k' v, w'.cache c' k' = some v → w.cache c' k' = some v ∨
        (c' = c ∧ k' = k) ∧ v = wrap a := by
  refine answered_cached (fun v hv => ?_) fun w₁ hw₁ => ?_
  · obtain ⟨a, ha, hG⟩ := hhit v hv
    exact ⟨a, ha, fun _ => ⟨a, rfl, hG, rfl, fun _ _ _ h => .inl h⟩⟩
  have hdb : w₁.db = w.db := by
    rcases hw₁ with rfl | rfl <;> rfl
  have hcache : ∀ c' k' v, w₁.cache c' k' = some v → w.cache c' k' = some v := by
    intro c' k' v hv
    rcases hw₁ with rfl | rfl
    · exact hv
    · rw [World.del_cache] at hv
      split at hv
      · cases hv
      · exact hv
  refine outcomes_mono (hload w₁ hdb) fun r w₂ hr => ?_
  rcases r with e | a
  · intro hlate
    obtain ⟨_, he, -⟩ := hr hlate
    cases he
  · intro hlate
    obtain ⟨b, hb, hG, rfl⟩ := hr hlate
    cases hb
    refine ⟨a, rfl, hG, hdb, fun c' k' v hv => ?_⟩
    rw [World.put_cache] at hv
    split at hv
    · next hk => exact .inr ⟨hk, (Option.some.inj hv).symm⟩
    · exact .inl (hcache c' k' v hv)

end Deadline

/-! ### The token and the state that it is presented in -/

/-- What is assumed of the library: an access token names its key, and is valid from its issue
until it expires. -/
structure AccessTokens (data : AppState) : Prop where
  kid : ∀ kp c token, data.signJwt kp (.access c) = .ok token → data.kidFromToken token = .ok kp.kid
  valid : ∀ kp c token now, data.signJwt kp (.access c) = .ok token → c.issuer = data.issuer →
    c.invalidBefore ≤ now → now < c.expiresAt →
    data.validateJwt kp token now = .ok (TokenClaims.access c).common

/-- The claims of a token for this user, client and device, issued at the time `clock` or before. -/
structure IssuedClaims (data : AppState) (user : User) (client : Client) (did : Option String)
    (clock : Int) (c : JWTClaims JwtAccessClaims) : Prop where
  issuer : c.issuer = data.issuer
  subject : c.subject = some user.id
  since : c.invalidBefore ≤ clock / 1000
  typ : c.custom.typ = .bearer
  azp : c.custom.azp = client.id
  did : c.custom.did = did

/-- The user is enabled and does not expire before the time `until`. -/
def User.ActiveUntil (u : User) (expiresAt : Int) : Prop :=
  u.enabled = true ∧ ∀ ts, u.userExpires = some ts → expiresAt ≤ ts

/-- The user and the client are still enabled, the device still exists, and the key is the same,
in the database and in all copies. -/
structure StillEnabled (data : AppState) (user : User) (client : Client) (did : Option String)
    (kp : JwkKeyPair) (expiresAt : Int) (w : World) : Prop where
  userRow : ∃ u ∈ w.db .users, u.id = user.id
  users : ∀ u ∈ w.db .users, u.id = user.id → u.ActiveUntil expiresAt
  userCopy : ∀ v, w.cache .users (User.cacheIdx user.id) = some v →
    ∃ u, v = .user u ∧ u.ActiveUntil expiresAt
  clients : ∀ c ∈ w.db .clients, c.id = client.id → c.enabled = true
  clientCopy : ∀ v, w.cache .c12hr (Client.getCacheEntry client.id) = some v →
    ∃ c, v = .client c ∧ c.enabled = true
  device : ∀ id, did = some id → ∃ d ∈ w.db .devices, d.id = id
  keys : ∀ j ∈ w.db .jwks, j.kid = kp.kid → JwkKeyPair.decrypt data j j.signature = .ok kp
  keyCopy : ∀ v, w.cache .c12hr ("jwk_kid_" ++ kp.kid) = some v → v = .jwkKeyPair kp

/-- Before it expires, a request that presents the token is answered. -/
def Accepted (data : AppState) (w : World) (req : HttpRequest) (expiresAt : Int) : Prop :=
  Succeeds (1000 * expiresAt) (getUserinfo data req) w fun _ _ => True

/-- The key and, with `USERINFO_STRICT`, the client are stored in the database. -/
structure Stored (data : AppState) (client : Client) (kp : JwkKeyPair) (w : World) : Prop where
  key : ∃ j ∈ w.db .jwks, j.kid = kp.kid
  client : data.userinfoStrict = true → ∃ c ∈ w.db .clients, c.id = client.id

section Issued

variable {data : AppState} {user : User} {client : Client} {fp nonce scopes : Option String}
  {flow : AuthCodeFlow} {dev : DeviceCodeFlow} {w w' : World} {ts : TokenSet}

theorem issuedClaims (h : Exec sem (TokenSet.fromUser data user client fp nonce scopes flow dev) w
      (.ok ts) w') :
    ∃ kp claims, data.signJwt kp (.access claims) = .ok ts.accessToken ∧
      IssuedClaims data user client dev.did w'.clock claims := by
  unfold TokenSet.fromUser at h
  obtain ⟨⟨ca, ci⟩, w₁, -, h₁⟩ := exec_bind_ok.mp h
  obtain ⟨lt, w₂, -, h₂⟩ := exec_bind_ok.mp h₁
  obtain ⟨token, w₃, htoken, h₃⟩ := exec_bind_ok.mp h₂
  obtain ⟨ah, w₄, hah, h₄⟩ := exec_bind_ok.mp h₃
  obtain ⟨idt, w₅, hidt, h₅⟩ := exec_bind_ok.mp h₄
  obtain ⟨rt, w₆, hrt, hret, rfl⟩ := exec_bind_ok.mp h₅
  cases hret
  obtain ⟨custom, v₁, -, k₁⟩ := exec_bind_ok.mp htoken
  obtain ⟨claims, v₂, hclaims, k₂⟩ := exec_bind_ok.mp k₁
  obtain ⟨now, v₃, hnow, hret, rfl⟩ := exec_bind_ok.mp hclaims
  obtain ⟨typ, v₄, htyp, k₃⟩ := exec_bind_ok.mp k₂
  obtain ⟨kp, v₅, hkp, hsign⟩ := exec_bind_ok.mp k₃
  cases hret
  obtain ⟨ms, rfl, -, rfl⟩ := exec_unixTimestamp.mp hnow
  have hlater : ms ≤ w'.clock := by
    have h₁ := exec_clock htyp
    have h₂ := exec_clock hkp
    have h₃ := exec_clock hsign
    have h₄ := exec_clock hah
    have h₅ := exec_clock hidt
    have h₆ := exec_clock hrt
    simp only at h₁
    omega
  exact ⟨kp, _, (exec_answer.mp hsign).1, rfl, rfl, Int.ediv_le_ediv (by decide) hlater, rfl, rfl, rfl⟩

end Issued

/-! ### Tokens that are accepted -/

section Accepted

variable {data : AppState} {user : User} {client : Client} {did : Option String} {kp : JwkKeyPair}
  {expiresAt : Int} {db : Db} {w w' : World}
  {deadline : Int}

theorem keyIdx_ne_client (kid id : String) : "jwk_kid_" ++ kid ≠ Client.getCacheEntry id := by
  intro h
  have hlist := congrArg String.toList h
  simp [Client.getCacheEntry] at hlist

/-- Operations that put only these copies keep everything enabled. -/
theorem StillEnabled.step (h : StillEnabled data user client did kp expiresAt w)
    (hdb : w'.db = w.db)
    (hcache : ∀ c k v, w'.cache c k = some v → w.cache c k = some v ∨
      (c = .users ∧ k = User.cacheIdx user.id → ∃ u, v = .user u ∧ u.ActiveUntil expiresAt) ∧
      (c = .c12hr ∧ k = Client.getCacheEntry client.id → ∃ c, v = .client c ∧ c.enabled = true) ∧
      (c = .c12hr ∧ k = "jwk_kid_" ++ kp.kid → v = .jwkKeyPair kp)) :
    StillEnabled data user client did kp expiresAt w' where
  userRow := by
    rw [hdb]
    exact h.userRow
  users := by
    rw [hdb]
    exact h.users
  userCopy v hv := by
    rcases hcache _ _ v hv with hv | ⟨hnew, -, -⟩
    · exact h.userCopy v hv
    · exact hnew ⟨rfl, rfl⟩
  clients := by
    rw [hdb]
    exact h.clients
  clientCopy v hv := by
    rcases hcache _ _ v hv with hv | ⟨-, hnew, -⟩
    · exact h.clientCopy v hv
    · exact hnew ⟨rfl, rfl⟩
  device := by
    rw [hdb]
    exact h.device
  keys := by
    rw [hdb]
    exact h.keys
  keyCopy v hv := by
    rcases hcache _ _ v hv with hv | ⟨-, -, hnew⟩
    · exact h.keyCopy v hv
    · exact hnew ⟨rfl, rfl⟩

theorem StillEnabled.tick {ms : Int} (h : StillEnabled data user client did kp expiresAt w) :
    StillEnabled data user client did kp expiresAt { w with clock := ms } :=
  h.step rfl fun _ _ _ => .inl

/-- What holds in the state after each call of `get_userinfo`. -/
structure Presented (data : AppState) (db : Db) (user : User) (client : Client)
    (did : Option String) (kp : JwkKeyPair) (expiresAt : Int) (w : World) : Prop where
  enabled : StillEnabled data user client did kp expiresAt w
  db : w.db = db

theorem Presented.step (h : Presented data db user client did kp expiresAt w)
    (hdb : w'.db = w.db) (henabled : StillEnabled data user client did kp expiresAt w') :
    Presented data db user client did kp expiresAt w' :=
  ⟨henabled, hdb.trans h.db⟩

theorem succeeds_findKey (h : Presented data db user client did kp expiresAt w)
    (hkey : ∃ j ∈ db .jwks, j.kid = kp.kid) :
    Succeeds deadline (JwkKeyPair.find data kp.kid) w fun x w' =>
      x = kp ∧ Presented data db user client did kp expiresAt w' := by
  have hload : ∀ w₁ : World, w₁.db = w.db → Succeeds deadline (do
      let jwk ← fetchOne .jwks fun j => j.kid == kp.kid
      answer (JwkKeyPair.decrypt data jwk jwk.signature)) w₁ fun x w₂ => x = kp ∧ w₂ = w₁ := by
    intro w₁ hdb
    refine succeeds_bind (succeeds_fetchOne ?_) fun j w₂ _ ⟨hj, hkid, hw₂⟩ => ?_
    · rw [hdb, h.db]
      obtain ⟨j, hj, hkid⟩ := hkey
      exact ⟨j, hj, beq_iff_eq.mpr hkid⟩
    · rw [hdb] at hj
      subst hw₂
      exact succeeds_answer (fun _ => h.enabled.keys j hj (beq_iff_eq.mp hkid)) ⟨rfl, rfl⟩
  refine outcomes_mono (succeeds_cached (fun v hv => ?_) hload) fun r w' hr hlate => ?_
  · rw [h.enabled.keyCopy v hv]
    exact ⟨kp, rfl, rfl⟩
  · obtain ⟨x, rfl, rfl, hdb, hcache⟩ := hr hlate
    refine ⟨_, rfl, rfl, h.step hdb (h.enabled.step hdb fun c k v hv => ?_)⟩
    rcases hcache c k v hv with hold | ⟨⟨rfl, rfl⟩, rfl⟩
    · exact .inl hold
    · refine .inr ⟨?_, ?_, fun _ => rfl⟩
      · rintro ⟨he, -⟩
        cases he
      · rintro ⟨-, he⟩
        exact absurd he (keyIdx_ne_client _ _)

theorem succeeds_validateToken (hd : AccessTokens data) {claims : JWTClaims JwtAccessClaims}
    {token : String} (hsign : data.signJwt kp (.access claims) = .ok token)
    (hissuer : claims.issuer = data.issuer) (hsince : claims.invalidBefore ≤ w.clock / 1000)
    (h : Presented data db user client did kp expiresAt w)
    (hkey : ∃ j ∈ db .jwks, j.kid = kp.kid) :
    Succeeds (1000 * claims.expiresAt) (validateToken data token) w fun common w' =>
      common = (TokenClaims.access claims).common ∧
        Presented data db user client did kp expiresAt w' := by
  refine succeeds_bind (succeeds_answer (fun _ => hd.kid _ _ _ hsign) (F := fun kid w' =>
    kid = kp.kid ∧ w' = w) ⟨rfl, rfl⟩) fun kid w₁ _ ⟨hkid, hw₁⟩ => ?_
  subst hkid
  subst hw₁
  refine succeeds_bind (succeeds_findKey h hkey) fun kp' w₂ hle₂ ⟨hkp, h₂⟩ => ?_
  subst hkp
  refine succeeds_bind succeeds_unixTimestamp fun now w₃ hle₃ ⟨hnow, ms, hw₃⟩ => ?_
  have h₃ : Presented data db user client did kp' expiresAt w₃ := by
    rw [hw₃]
    exact h₂.step rfl h₂.enabled.tick
  refine succeeds_answer (fun hlate => hd.valid _ _ _ _ hsign hissuer ?_ ?_) ⟨rfl, h₃⟩
  · omega
  · omega

theorem succeeds_findUser (h : Presented data db user client did kp expiresAt w) :
    Succeeds deadline (User.find user.id) w fun u w' =>
      u.ActiveUntil expiresAt ∧ Presented data db user client did kp expiresAt w' := by
  have hload : ∀ w₁ : World, w₁.db = w.db →
      Succeeds deadline (fetchOne .users fun u => u.id == user.id) w₁ fun u w₂ =>
        u.ActiveUntil expiresAt ∧ w₂ = w₁ := by
    intro w₁ hdb
    obtain ⟨u, hu, hid⟩ := h.enabled.userRow
    have hfetch : Succeeds deadline (fetchOne .users fun u => u.id == user.id) w₁ fun r w₂ =>
        r ∈ w₁.db .users ∧ (r.id == user.id) = true ∧ w₂ = w₁ := by
      refine succeeds_fetchOne ⟨u, ?_, beq_iff_eq.mpr hid⟩
      rw [hdb]
      exact hu
    refine outcomes_mono hfetch fun r w₂ hr hlate => ?_
    obtain ⟨u', rfl, hmem, hid', rfl⟩ := hr hlate
    rw [hdb] at hmem
    exact ⟨u', rfl, h.enabled.users u' hmem (beq_iff_eq.mp hid'), rfl⟩
  refine outcomes_mono (succeeds_cached (fun v hv => ?_) hload) fun r w' hr hlate => ?_
  · obtain ⟨u, rfl, hactive⟩ := h.enabled.userCopy v hv
    exact ⟨u, rfl, hactive⟩
  · obtain ⟨u, rfl, hactive, hdb, hcache⟩ := hr hlate
    refine ⟨u, rfl, hactive, h.step hdb (h.enabled.step hdb fun c k v hv => ?_)⟩
    rcases hcache c k v hv with hold | ⟨⟨rfl, rfl⟩, rfl⟩
    · exact .inl hold
    · refine .inr ⟨fun _ => ⟨u, rfl, hactive⟩, ?_, ?_⟩
      · rintro ⟨he, -⟩
        cases he
      · rintro ⟨he, -⟩
        cases he

/-- A user who is active until the token expires is not disabled before. -/
theorem succeeds_isDisabled {u : User} (hu : u.ActiveUntil expiresAt)
    (h : Presented data db user client did kp expiresAt w) :
    Succeeds (1000 * expiresAt) u.isDisabled w fun b w' =>
      b = false ∧ Presented data db user client did kp expiresAt w' := by
  obtain ⟨henabled, hexpires⟩ := hu
  unfold User.isDisabled
  rw [if_pos henabled]
  unfold User.checkExpired
  rcases hts : u.userExpires with - | ts
  · exact outcomes_bind (outcomes_tried (outcomes_ret (succeeds_ret ⟨rfl, h⟩)))
  · have hle := hexpires ts hts
    refine outcomes_bind (outcomes_tried (outcomes_bind (answered_unixTimestamp fun ms _ => ?_)))
    refine outcomes_throwIf (fun _ => succeeds_ret ⟨rfl, h.step rfl h.enabled.tick⟩) fun hlate => ?_
    refine outcomes_ret fun hbefore => ?_
    -- the clock that was read is past the deadline
    simp only at hbefore
    omega

theorem succeeds_findClient (h : Presented data db user client did kp expiresAt w)
    (hrow : ∃ c ∈ db .clients, c.id = client.id) :
    Succeeds deadline (Client.find client.id) w fun c w' =>
      c.enabled = true ∧ Presented data db user client did kp expiresAt w' := by
  unfold Client.find
  refine outcomes_bind (answered_cacheGet (fun v hv => ?_) fun w₁ hw₁ => ?_)
  · obtain ⟨c, rfl, henabled⟩ := h.enabled.clientCopy v hv
    exact ⟨c, rfl, succeeds_ret ⟨henabled, h⟩⟩
  have h₁ : Presented data db user client did kp expiresAt w₁ := by
    rcases hw₁ with rfl | rfl
    · exact h
    · refine h.step rfl (h.enabled.step rfl fun c k v hv => .inl ?_)
      rw [World.del_cache] at hv
      split at hv
      · cases hv
      · exact hv
  have hfetch : Succeeds deadline (fetchOne .clients fun c => c.id == client.id) w₁ fun r w₂ =>
      r ∈ w₁.db .clients ∧ (r.id == client.id) = true ∧ w₂ = w₁ := by
    refine succeeds_fetchOne ?_
    rw [h₁.db]
    obtain ⟨c, hc, hid⟩ := hrow
    exact ⟨c, hc, beq_iff_eq.mpr hid⟩
  refine succeeds_bind hfetch fun c w₂ _ ⟨hc, hid, hw₂⟩ => ?_
  subst hw₂
  have hid : c.id = client.id := beq_iff_eq.mp hid
  have henabled : c.enabled = true := h₁.enabled.clients c hc hid
  refine outcomes_bind (answered_cachePut (succeeds_ret ⟨henabled, ?_⟩))
  refine h₁.step rfl (h₁.enabled.step rfl fun n k v hv => ?_)
  rw [World.put_cache] at hv
  split at hv
  · next hk =>
    obtain ⟨rfl, rfl⟩ := hk
    refine .inr ⟨?_, fun _ => ⟨c, (Option.some.inj hv).symm, henabled⟩, ?_⟩
    · rintro ⟨he, -⟩
      cases he
    · rintro ⟨-, he⟩
      exact absurd he.symm (keyIdx_ne_client _ _)
  · exact .inl hv

theorem succeeds_checkDevice (h : Presented data db user client did kp expiresAt w) :
    Succeeds deadline (checkDevice did) w fun _ w' =>
      Presented data db user client did kp expiresAt w' := by
  rcases did with - | id
  · exact succeeds_ret h
  · obtain ⟨d, hd, hid⟩ := h.enabled.device id rfl
    refine succeeds_bind (succeeds_mapErr (succeeds_fetchOne ⟨d, hd, beq_iff_eq.mpr hid⟩))
      fun _ w₁ _ ⟨_, _, hw₁⟩ => ?_
    subst hw₁
    exact succeeds_ret h

theorem succeeds_checkStrict (h : Presented data db user client did kp expiresAt w)
    (hrow : ∃ c ∈ db .clients, c.id = client.id) {claims : JwtCommonClaims}
    (hdid : claims.did = did) (hazp : claims.azp = client.id) :
    Succeeds deadline (checkStrict claims) w fun _ w' =>
      Presented data db user client did kp expiresAt w' := by
  unfold checkStrict
  rw [hdid, hazp]
  refine succeeds_bind (succeeds_checkDevice h) fun _ w₁ _ h₁ => ?_
  refine succeeds_bind (succeeds_mapErr (succeeds_findClient h₁ hrow)) fun c w₂ _ ⟨hc, h₂⟩ => ?_
  exact succeeds_throwIf (by simp [hc]) h₂

theorem succeeds_valuesFor (needed : Bool) (id : String) :
    Succeeds deadline (userValuesFor needed id) w fun _ _ => True := by
  unfold userValuesFor
  split
  · refine outcomes_mono (answered_findValues id) fun r w' hr _ => ?_
    obtain ⟨v, rfl⟩ := hr
    exact ⟨v, rfl, trivial⟩
  · exact succeeds_ret trivial

end Accepted

/-! ### Tokens that are refused -/

section Refused

variable {ε α β : Type} {w : World}
  {p : M ε α}

/-- The operations that change neither the database nor, at the same time, the clock. -/
def Op.Reads : Op → Prop
  | .now | .select _ _ | .cacheGet _ _ | .cachePut _ _ _ => True
  | _ => False

theorem exists_exec_reads {p : Prog Op Op.Res ε α} (hp : p.Within Op.Reads) :
    ∃ r w', Exec semUp p w r w' ∧ w'.db = w.db ∧ w'.clock = w.clock := by
  induction p generalizing w with
  | ret a => exact ⟨_, w, ⟨rfl, rfl⟩, rfl, rfl⟩
  | fail e => exact ⟨_, w, ⟨rfl, rfl⟩, rfl, rfl⟩
  | call o k ih =>
    have hstep : ∃ x w₁, semUp o w x w₁ ∧ w₁.db = w.db ∧ w₁.clock = w.clock := by
      cases o with
      | now => exact ⟨w.clock, w, ⟨sem_now.mpr ⟨le_rfl, rfl⟩, trivial⟩, rfl, rfl⟩
      | select t p => exact ⟨_, w, ⟨sem_select.mpr ⟨rfl, .inl rfl⟩, _, rfl⟩, rfl, rfl⟩
      | cacheGet c k => exact ⟨_, w, ⟨sem_cacheGet.mpr (.inl ⟨rfl, rfl⟩), _, rfl⟩, rfl, rfl⟩
      | cachePut c key v =>
        exact ⟨_, w.put c key v, ⟨sem_cachePut.mpr (.inl ⟨rfl, rfl⟩), rfl⟩, rfl, rfl⟩
      | _ => exact absurd hp.1 id
    obtain ⟨x, w₁, hx, hdb, hclock⟩ := hstep
    obtain ⟨r, w', hrest, hdb', hclock'⟩ := ih x (hp.2 x)
    exact ⟨r, w', ⟨x, w₁, hx, hrest⟩, hdb'.trans hdb, hclock'.trans hclock⟩

/-- Without failing stores, `p` can fail before any time passes. -/
def CanFail (p : M ε α) (w : World) : Prop :=
  ∃ e w', Exec semUp p w (.error e) w' ∧ w'.clock = w.clock

theorem CanFail.bind {f : α → M ε β} (h : CanFail p w) : CanFail (p >>= f) w := by
  obtain ⟨e, w', hx, hclock⟩ := h
  exact ⟨e, w', exec_bind.mpr (.inl ⟨e, rfl, hx⟩), hclock⟩

theorem CanFail.mapErr {f : ErrorResponse → ErrorResponse} {p : M ErrorResponse α}
    (h : CanFail p w) : CanFail (mapErr f p) w := by
  obtain ⟨e, w', hx, hclock⟩ := h
  exact ⟨_, w', exec_mapErr_error hx, hclock⟩

theorem CanFail.after {deadline : Int} {f : α → M ε β} {F : α → World → Prop}
    (hp : Succeeds deadline p w F) (hreads : p.Within Op.Reads) (hlate : w.clock < deadline)
    (hf : ∀ a w₁, w₁.clock = w.clock → F a w₁ → CanFail (f a) w₁) : CanFail (p >>= f) w := by
  obtain ⟨r, w₁, hx, -, hclock⟩ := exists_exec_reads hreads
  obtain ⟨a, rfl, hF⟩ := hp r w₁ hx (hclock ▸ hlate)
  obtain ⟨e, w', hrest, hclock'⟩ := hf a w₁ hclock hF
  exact ⟨e, w', exec_bind.mpr (.inr ⟨a, w₁, hx, hrest⟩), hclock'.trans hclock⟩

/-- A row that does not exist is not found, when the cache has no copy of it. -/
theorem canFail_fetchOne {t : Table} {p : Row t → Bool} (h : ∀ r ∈ w.db t, p r = false) :
    CanFail (fetchOne t p) w := by
  have hnone : ((w.db t).filter p).head? = none := by
    rw [List.filter_eq_nil_iff.mpr fun r hr => by simp [h r hr]]
    rfl
  refine ⟨err .notFound "not found", w, exec_bind.mpr (.inr ⟨[], w, ?_, ?_⟩), rfl⟩
  · refine ⟨.ok [], w, ⟨sem_select.mpr ⟨rfl, .inl ?_⟩, _, rfl⟩, rfl, rfl⟩
    rw [List.head?_eq_none_iff.mp hnone]
  · exact ⟨rfl, rfl⟩

theorem exec_miss (c : CacheName) (k : String) (as : CacheVal → Option α) :
    Exec semUp (cacheGet c k as) w (.ok none) (w.del c k) :=
  exec_bind_ok.mpr ⟨none, w.del c k, ⟨.ok none, w.del c k,
    ⟨sem_cacheGet.mpr (.inr (.inl ⟨rfl, rfl⟩)), none, rfl⟩, rfl, rfl⟩, rfl, rfl⟩

theorem canFail_findKey {data : AppState} {kid : String} (h : ∀ j ∈ w.db .jwks, j.kid ≠ kid) :
    CanFail (JwkKeyPair.find data kid) w := by
  have hload : CanFail (do
      let jwk ← fetchOne .jwks fun j => j.kid == kid
      answer (JwkKeyPair.decrypt data jwk jwk.signature)) (w.del .c12hr ("jwk_kid_" ++ kid)) :=
    (canFail_fetchOne fun j hj => by simpa using h j hj).bind
  obtain ⟨e, w', hx, hclock⟩ := hload
  refine ⟨e, w', exec_bind.mpr (.inr ⟨none, _, exec_miss _ _ _, ?_⟩), hclock⟩
  exact exec_bind.mpr (.inl ⟨e, rfl, hx⟩)

theorem canFail_findClient {id : String} (h : ∀ c ∈ w.db .clients, c.id ≠ id) :
    CanFail (Client.find id) w := by
  have hfetch : CanFail (fetchOne .clients fun c => c.id == id)
      (w.del .c12hr (Client.getCacheEntry id)) :=
    canFail_fetchOne fun c hc => by simpa using h c hc
  obtain ⟨e, w', hx, hclock⟩ := hfetch
  refine ⟨e, w', exec_bind.mpr (.inr ⟨none, _, exec_miss _ _ _, ?_⟩), hclock⟩
  exact exec_bind.mpr (.inl ⟨e, rfl, hx⟩)

/-! #### The calls of `get_userinfo` only read -/

theorem reads_answer (x : Except ErrorResponse α) : Within Op.Reads (answer x) := by
  cases x <;> trivial

theorem reads_unixTimestamp : Within Op.Reads (unixTimestamp : M ε Int) :=
  within_bind ⟨trivial, fun _ => trivial⟩ fun _ => trivial

theorem reads_attempt {ε' : Type} (hp : Within Op.Reads p) :
    Within Op.Reads (attempt p : M ε' (Except ε α)) := by
  refine within_bind (within_attempt hp) fun x => ?_
  rcases x with (e | msg) | a <;> trivial

theorem reads_fetchOne (t : Table) (p : Row t → Bool) : Within Op.Reads (fetchOne t p) := by
  refine within_bind ⟨trivial, fun x => ?_⟩ fun rows => ?_
  · cases x <;> trivial
  · cases rows.head? <;> trivial

theorem reads_cacheGet (c : CacheName) (k : String) (as : CacheVal → Option α) :
    Within Op.Reads (cacheGet c k as) := by
  refine within_bind ⟨trivial, fun x => ?_⟩ fun v => ?_
  · cases x <;> trivial
  · rcases v with - | v
    · trivial
    · refine within_bind ?_ fun _ => trivial
      cases as v <;> trivial

theorem reads_cached {c : CacheName} {k : String} {as : CacheVal → Option α}
    {wrap : α → CacheVal} {load : M ErrorResponse α} (hload : Within Op.Reads load) :
    Within Op.Reads (cached c k as wrap load) := by
  refine within_bind (reads_cacheGet _ _ _) fun x => ?_
  cases x with
  | some a => trivial
  | none => exact within_bind hload fun a => within_bind ⟨trivial, fun x => by
      cases x <;> trivial⟩ fun _ => trivial

theorem reads_validateToken (data : AppState) (token : String) :
    Within Op.Reads (validateToken data token) := by
  refine within_bind (reads_answer _) fun kid => ?_
  refine within_bind (reads_cached (within_bind (reads_fetchOne _ _) fun j => ?_)) fun kp => ?_
  · exact reads_answer _
  · exact within_bind reads_unixTimestamp fun _ => reads_answer _

theorem reads_isDisabled (u : User) : Within Op.Reads u.isDisabled := by
  unfold User.isDisabled
  split
  · refine within_bind (reads_attempt ?_) fun x => ?_
    · unfold User.checkExpired
      rcases u.userExpires with - | ts
      · trivial
      · exact within_bind reads_unixTimestamp fun now => within_throwIf (now > ts) _
    · cases x <;> trivial
  · trivial

theorem reads_checkDevice (did : Option String) : Within Op.Reads (checkDevice did) := by
  cases did with
  | none => trivial
  | some id => exact within_bind (within_mapErr (reads_fetchOne _ _)) fun _ => trivial

end Refused

/-! ### When tokens are accepted -/

section Iff

variable {data : AppState} {user : User} {client : Client} {did : Option String} {kp : JwkKeyPair}
  {db : Db} {w : World} {clock : Int} {claims : JWTClaims JwtAccessClaims} {token : String}
  {req : HttpRequest}

/-- What `get_userinfo` does with `USERINFO_STRICT`, and after it. -/
def strictPart (data : AppState) (claims : JwtCommonClaims) (u : User) :
    M ErrorResponse Userinfo := do
  runIf (data.userinfoStrict = true) (checkStrict claims)
  let scope := claims.scope.getD "openid"
  let values ← userValuesFor (Text.contains scope "profile" || Text.contains scope "address" ||
    Text.contains scope "phone") u.id
  return userinfoOf data scope u values

/-- The checks before, which succeed.  `G` is what is shown of programs that start with them. -/
theorem getUserinfo_checks (hd : AccessTokens data)
    (hsign : data.signJwt kp (.access claims) = .ok token)
    (hclaims : IssuedClaims data user client did clock claims)
    (hreq : getBearerTokenFromHeader req = .ok token) (hclock : clock ≤ w.clock)
    (h : StillEnabled data user client did kp claims.expiresAt w)
    (hkey : ∃ j ∈ w.db .jwks, j.kid = kp.kid)
    {G : {α : Type} → M ErrorResponse α → World → Prop}
    (hG : ∀ {α β : Type} {p : M ErrorResponse α} {f : α → M ErrorResponse β}
      {F : α → World → Prop} {w : World}, Succeeds (1000 * claims.expiresAt) p w F →
      p.Within Op.Reads → (∀ a w₁, F a w₁ → G (f a) w₁) → G (p >>= f) w)
    (hrest : ∀ u w₁, Presented data w.db user client did kp claims.expiresAt w₁ →
      G (strictPart data (TokenClaims.access claims).common.custom u) w₁) :
    G (getUserinfo data req) w := by
  have hsince : claims.invalidBefore ≤ w.clock / 1000 :=
    hclaims.since.trans (Int.ediv_le_ediv (by decide) hclock)
  refine hG (succeeds_answer (fun _ => hreq) (F := fun t w' => t = token ∧ w' = w)
    ⟨rfl, rfl⟩) (reads_answer _) fun t w₁ ⟨ht, hw₁⟩ => ?_
  subst ht
  subst hw₁
  have h₁ : Presented data w₁.db user client did kp claims.expiresAt w₁ := ⟨h, rfl⟩
  refine hG (succeeds_validateToken hd hsign hclaims.issuer hsince h₁ hkey)
    (reads_validateToken _ _) fun common w₂ ⟨hcommon, h₂⟩ => ?_
  subst hcommon
  have htyp : (TokenClaims.access claims).common.custom.typ = .bearer := hclaims.typ
  refine hG (succeeds_throwIf (by simp [htyp]) (F := fun _ w' => w' = w₂) rfl)
    (within_throwIf _ _) fun _ w₃ hw₃ => ?_
  subst hw₃
  refine hG (F := fun uid w' => uid = user.id ∧ w' = w₃)
    (outcomes_okOr (fun uid huid _ => ?_) fun hn => ?_) ?_ fun uid w₄ ⟨huid, hw₄⟩ => ?_
  · have hsub := hclaims.subject.symm.trans huid
    exact ⟨uid, rfl, (Option.some.inj hsub).symm, rfl⟩
  · cases hclaims.subject.symm.trans hn
  · cases (TokenClaims.access claims).common.subject <;> trivial
  subst huid
  subst hw₄
  refine hG (succeeds_mapErr (succeeds_findUser h₂))
    (within_mapErr (reads_cached (reads_fetchOne _ _))) fun u w₅ ⟨hu, h₅⟩ => ?_
  refine hG (succeeds_isDisabled hu h₅) (reads_isDisabled u) fun b w₆ ⟨hb, h₆⟩ => ?_
  refine hG (succeeds_throwIf (by simp [hb]) (F := fun _ w' => w' = w₆) rfl)
    (within_throwIf _ _) fun _ w₇ hw₇ => ?_
  subst hw₇
  exact hrest u w₇ h₆

theorem accepted_of_stored (hd : AccessTokens data)
    (hsign : data.signJwt kp (.access claims) = .ok token)
    (hclaims : IssuedClaims data user client did clock claims)
    (hreq : getBearerTokenFromHeader req = .ok token) (hclock : clock ≤ w.clock)
    (h : StillEnabled data user client did kp claims.expiresAt w)
    (hstored : Stored data client kp w) : Accepted data w req claims.expiresAt := by
  refine getUserinfo_checks hd hsign hclaims hreq hclock h hstored.key
    (G := fun p w => Succeeds (1000 * claims.expiresAt) p w fun _ _ => True)
    (fun hp _ hf => succeeds_bind hp fun a w₁ _ => hf a w₁) fun u w₁ h₁ => ?_
  have hstrict : Succeeds (1000 * claims.expiresAt) (runIf (data.userinfoStrict = true)
      (checkStrict (TokenClaims.access claims).common.custom)) w₁ fun _ _ => True := by
    unfold runIf
    split
    · next hstrict =>
      exact (succeeds_checkStrict h₁ (hstored.client hstrict) hclaims.did hclaims.azp).imp
        fun _ _ _ => trivial
    · exact succeeds_ret trivial
  refine succeeds_bind hstrict fun _ w₂ _ _ => ?_
  exact succeeds_bind (succeeds_valuesFor _ _) fun _ w₃ _ _ => succeeds_ret trivial

theorem stored_of_accepted (hd : AccessTokens data)
    (hsign : data.signJwt kp (.access claims) = .ok token)
    (hclaims : IssuedClaims data user client did clock claims)
    (hreq : getBearerTokenFromHeader req = .ok token) (hclock : clock ≤ w.clock)
    (hlate : w.clock < 1000 * claims.expiresAt)
    (h : StillEnabled data user client did kp claims.expiresAt w)
    (ha : Accepted data w req claims.expiresAt) : Stored data client kp w := by
  have hnot : ¬ CanFail (getUserinfo data req) w := by
    rintro ⟨e, w', hx, hclock'⟩
    obtain ⟨info, hinfo, -⟩ := ha _ _ hx (hclock' ▸ hlate)
    cases hinfo
  have hkey : ∃ j ∈ w.db .jwks, j.kid = kp.kid := by
    by_contra hnone
    refine hnot (CanFail.after (F := fun t w' => t = token ∧ w' = w)
      (succeeds_answer (fun _ => hreq) ⟨rfl, rfl⟩) (reads_answer _) hlate fun t w₁ _ ⟨ht, hw₁⟩ => ?_)
    subst ht
    subst hw₁
    refine CanFail.bind (CanFail.after (F := fun kid w' => kid = kp.kid ∧ w' = w₁)
      (succeeds_answer (fun _ => hd.kid _ _ _ hsign) ⟨rfl, rfl⟩) (reads_answer _) hlate
      fun kid w₂ _ ⟨hkid, hw₂⟩ => ?_)
    subst hkid
    subst hw₂
    exact (canFail_findKey fun j hj hkid => hnone ⟨j, hj, hkid⟩).bind
  refine ⟨hkey, fun hstrict => ?_⟩
  by_contra hnone
  refine hnot (getUserinfo_checks hd hsign hclaims hreq hclock h hkey
    (G := fun p w => w.clock < 1000 * claims.expiresAt → CanFail p w)
    (fun hp hreads hf hlate => .after hp hreads hlate fun a w₁ hclock' hF => ?_)
    (fun u w₁ h₁ hlate' => ?_) hlate)
  · exact hf a w₁ hF (hclock' ▸ hlate)
  unfold strictPart
  rw [runIf, if_pos hstrict]
  refine CanFail.bind ?_
  have hdid : (TokenClaims.access claims).common.custom.did = did := hclaims.did
  have hazp : (TokenClaims.access claims).common.custom.azp = client.id := hclaims.azp
  unfold checkStrict
  rw [hdid, hazp]
  refine .after (succeeds_checkDevice h₁) (reads_checkDevice _) hlate' fun _ w₂ _ h₂ => ?_
  refine (CanFail.mapErr (canFail_findClient fun c hc hid => hnone ⟨c, ?_, hid⟩)).bind
  rwa [h₂.db] at hc

/-- **Before it expires, an issued token is accepted** if and only if its key and, with
`USERINFO_STRICT`, its client are stored. -/
theorem bearer_accepted {dev : DeviceCodeFlow} {flow : AuthCodeFlow}
    {fp nonce scopes : Option String} {w w' : World} {ts : TokenSet} (hd : AccessTokens data)
    (hissued : Exec sem (TokenSet.fromUser data user client fp nonce scopes flow dev) w (.ok ts)
      w') :
    ∃ kp claims, data.signJwt kp (.access claims) = .ok ts.accessToken ∧
      ∀ w₁ req, w'.clock ≤ w₁.clock → w₁.clock < 1000 * claims.expiresAt →
        getBearerTokenFromHeader req = .ok ts.accessToken →
        StillEnabled data user client dev.did kp claims.expiresAt w₁ →
        (Accepted data w₁ req claims.expiresAt ↔ Stored data client kp w₁) := by
  obtain ⟨kp, claims, hsign, hclaims⟩ := issuedClaims hissued
  refine ⟨kp, claims, hsign, fun w₁ req hclock hlate hreq h => ⟨fun ha => ?_, fun hstored => ?_⟩⟩
  · exact stored_of_accepted hd hsign hclaims hreq hclock hlate h ha
  · exact accepted_of_stored hd hsign hclaims hreq hclock h hstored

end Iff

/-! ### An ephemeral client -/

/-- `Client::ephemeral_from_url`: the client whose id is the address of its document. -/
def remoteClient : Client :=
  { sampleClient with id := "https://app.example", redirectUris := "https://app.example/callback" }

def remoteClaims : JWTClaims JwtAccessClaims where
  issuedAt := 0
  expiresAt := 1800
  invalidBefore := 0
  issuer := sampleState.issuer
  subject := some "alice"
  audiences := ["https://app.example"]
  nonce := none
  custom :=
    { (default : JwtAccessClaims) with
      typ := .bearer
      azp := "https://app.example"
      scope := "openid"
      preferredUsername := some "alice@localhost"
      roles := some ["admin"] }

/-- A server with ephemeral clients, whose library signs only these claims for access tokens. -/
def remoteState (userinfoStrict : Bool) : AppState :=
  { sampleState with
    userinfoStrict
    enableEphemeralClients := true
    isUrl := fun id => Text.startsWith id "https://"
    signJwt := fun kp c => match c with
      | .access c =>
          if kp = ⟨"kid", .edDSA, []⟩ ∧ c = remoteClaims then .ok "access-token"
          else .error ⟨.internal, "not signed"⟩
      | c => sampleState.signJwt kp c
    validateJwt := fun kp token now =>
      if kp = ⟨"kid", .edDSA, []⟩ ∧ token = "access-token" ∧ 0 ≤ now ∧ now < 1800 then
        .ok (TokenClaims.access remoteClaims).common
      else .error ⟨.unauthorized, "Invalid Token"⟩ }

theorem remoteState_sign {strict : Bool} {kp : JwkKeyPair} {c : JWTClaims JwtAccessClaims}
    {token : String} (h : (remoteState strict).signJwt kp (.access c) = .ok token) :
    kp = ⟨"kid", .edDSA, []⟩ ∧ c = remoteClaims ∧ token = "access-token" := by
  simp only [remoteState] at h
  split at h
  · next hsigned =>
    cases h
    exact ⟨hsigned.1, hsigned.2, rfl⟩
  · cases h

theorem accessTokens_remoteState (strict : Bool) : AccessTokens (remoteState strict) where
  kid kp c token h := by
    obtain ⟨rfl, -, -⟩ := remoteState_sign h
    rfl
  valid kp c token now h _ hsince hlate := by
    obtain ⟨rfl, rfl, rfl⟩ := remoteState_sign h
    exact if_pos ⟨rfl, rfl, hsince, hlate⟩

/-- The key is stored, and the client is not. -/
def remoteWorld : World where
  clock := 0
  issued := []
  db
    | .users => [sampleUser]
    | .jwks => [⟨"kid", 0, .edDSA, "key", []⟩]
    | _ => []
  cache _ _ := none

theorem stillEnabled_remoteWorld (strict : Bool) :
    StillEnabled (remoteState strict) sampleUser remoteClient none ⟨"kid", .edDSA, []⟩ 1800
      remoteWorld where
  userRow := ⟨sampleUser, List.mem_singleton_self _, rfl⟩
  users u hu _ := by
    cases List.mem_singleton.mp hu
    exact ⟨rfl, fun ts hts => by cases hts⟩
  userCopy v hv := by cases hv
  clients c hc _ := by cases hc
  clientCopy v hv := by cases hv
  device id hid := by cases hid
  keys j hj _ := by
    cases List.mem_singleton.mp hj
    rfl
  keyCopy v hv := by cases hv

/-- The client gets its tokens, whatever `USERINFO_STRICT` is. -/
theorem issued_remoteWorld (strict : Bool) : ∃ ts w', Exec sem
    (TokenSet.fromUser (remoteState strict) sampleUser remoteClient none none (some "openid")
      .yes .no) remoteWorld (.ok ts) w' ∧ ts.accessToken = "access-token" ∧ w'.clock = 0 := by
  obtain ⟨r, w', hx, hr⟩ := Pool.exists_exec_of_choices Op.run
    (TokenSet.fromUser (remoteState strict) sampleUser remoteClient none none (some "openid")
      .yes .no) [.time 0, .ok, .ok, .ok, .time 0, .time 0, .ok] remoteWorld
    (fun r w' => r.toOption.any fun ts => ts.accessToken == "access-token" && w'.clock == 0)
    (by cases strict <;> decide +kernel)
  rcases r with e | ts
  · cases hr
  · obtain ⟨htoken, hclock⟩ := Bool.and_eq_true_iff.mp hr
    exact ⟨ts, w', hx, beq_iff_eq.mp htoken, beq_iff_eq.mp hclock⟩

def userinfoReq : HttpRequest :=
  { (default : HttpRequest) with authorization := some "Bearer access-token" }

/-- Without `USERINFO_STRICT`, the token of the ephemeral client is accepted. -/
theorem bearer_accepted_remote : ∃ ts w', Exec sem
    (TokenSet.fromUser (remoteState false) sampleUser remoteClient none none (some "openid")
      .yes .no) remoteWorld (.ok ts) w' ∧
    getBearerTokenFromHeader userinfoReq = .ok ts.accessToken ∧
    Accepted (remoteState false) remoteWorld userinfoReq 1800 := by
  obtain ⟨ts, w', hx, htoken, hclock⟩ := issued_remoteWorld false
  have hreq : getBearerTokenFromHeader userinfoReq = .ok ts.accessToken := by
    rw [htoken]
    decide +kernel
  obtain ⟨kp, claims, hsign, hiff⟩ := bearer_accepted (accessTokens_remoteState false) hx
  obtain ⟨rfl, rfl, -⟩ := remoteState_sign hsign
  refine ⟨ts, w', hx, hreq, (hiff remoteWorld userinfoReq hclock.le (by decide) hreq
    (stillEnabled_remoteWorld false)).mpr ⟨⟨_, List.mem_singleton_self _, rfl⟩, ?_⟩⟩
  intro hstrict
  cases hstrict

/-- With `USERINFO_STRICT`, it is refused: an enabled client that is found when the token is
issued is not found when it is presented. -/
theorem ephemeral_refused : ∃ ts w', remoteClient.isEphemeral (remoteState true) = true ∧
    AccessTokens (remoteState true) ∧ Exec sem
    (TokenSet.fromUser (remoteState true) sampleUser remoteClient none none (some "openid")
      .yes .no) remoteWorld (.ok ts) w' ∧
    StillEnabled (remoteState true) sampleUser remoteClient none ⟨"kid", .edDSA, []⟩ 1800
      remoteWorld ∧
    w'.clock ≤ remoteWorld.clock ∧ remoteWorld.clock < 1000 * 1800 ∧
    getBearerTokenFromHeader userinfoReq = .ok ts.accessToken ∧
    ¬ Accepted (remoteState true) remoteWorld userinfoReq 1800 := by
  obtain ⟨ts, w', hx, htoken, hclock⟩ := issued_remoteWorld true
  refine ⟨ts, w', by decide +kernel, accessTokens_remoteState true, hx,
    stillEnabled_remoteWorld true, hclock.le, by decide, ?_, fun ha => ?_⟩
  · rw [htoken]
    decide +kernel
  obtain ⟨r, w₁, hrun, hr⟩ := exists_exec_semUp (getUserinfo (remoteState true) userinfoReq)
    [.ok, .ok, .ok, .time 0, .ok, .ok, .ok, .ok, .ok] remoteWorld
    (fun r w₁ => !r.isOk && w₁.clock == 0)
    (by decide +kernel)
  rcases r with e | info
  · obtain ⟨info, hinfo, -⟩ := ha _ _ hrun (by rw [beq_iff_eq.mp hr]; decide)
    cases hinfo
  · cases hr

end Rauthy
