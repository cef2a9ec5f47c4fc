/-
Rauthy/TokenLifetimes.lean

The token sets of users, across their parts: how long the tokens live, what `expires_in` says of
that, and the hash of the access token in the id token.  The lifetime is computed once, from one
reading of the clock, and each token is then made at a later one; `clocked` runs a program together
with the readings of the clock.

Main results:
  * `build_injective`, no two hash functions give one token hash;
  * `token_set_consistent_iff`, when all parts of a token set fit together;
  * `reported_lifetime_wrong`: a user that expires before the tokens of the client would.
-/
import Rauthy.Userinfo

namespace Rauthy

open Prog

/-! ### What a token set has to say -/

/-- The hash function of a signing algorithm. -/
def JwkKeyPairAlg.hash : JwkKeyPairAlg → AtHashAlg
  | rs256 => .sha256
  | rs384 => .sha384
  | rs512 => .sha512
  | edDSA => .sha512

/-- The tokens expire with the user, the lifetime is the one that is reported, and the token hash is
of the algorithm that the id token is signed with. -/
structure TokenSet.Consistent (data : AppState) (user : User) (ts : TokenSet) : Prop where
  access : ∀ kp claims, data.signJwt kp (.access claims) = .ok ts.accessToken →
    (∀ exp, user.userExpires = some exp → claims.expiresAt ≤ exp) ∧
    ts.expiresIn = claims.expiresAt - claims.issuedAt
  id : ∀ token kp claims, ts.idToken = some token → data.signJwt kp (.id claims) = .ok token →
    (∀ exp, user.userExpires = some exp → claims.expiresAt ≤ exp) ∧
    claims.custom.atHash = AtHash.build data (Text.asBytes ts.accessToken) kp.typ.hash

/-- A token says which algorithm it is signed with, and for which claims. -/
def SignedReadable (data : AppState) : Prop :=
  ∀ kp kp' c c' token, data.signJwt kp c = .ok token → data.signJwt kp' c' = .ok token →
    kp.typ = kp'.typ ∧ c = c'

/-- What is cached as the latest key of an algorithm is a key of this algorithm. -/
def LatestTyped (w : World) : Prop :=
  ∀ alg typ kp, JwkKeyPairAlg.fromStr alg = .ok typ →
    w.cache .c12hr ("jwk_latest_" ++ alg) = some (.jwkKeyPair kp) → kp.typ = typ

/-! ### Readings of the clock -/

/-- What the operation reads from the clock, in milliseconds. -/
def Op.readings : (o : Op) → o.Res → List Int
  | .now, ms => [ms]
  | _, _ => []

/-- The operations, with the readings of the clock so far. -/
def clocked (o : Op) (s : World × List Int) (x : o.Res) (s' : World × List Int) : Prop :=
  sem o s.1 x s'.1 ∧ s'.2 = s.2 ++ o.readings x

/-- The operation does not read the clock. -/
def Op.NoClock : Op → Prop
  | .now => False
  | _ => True

section Clocked

variable {ε α : Type} {s s' : World × List Int}
  {p : Prog Op Op.Res ε α} {r : Except ε α}

theorem Op.readings_eq_nil {o : Op} (ho : o.NoClock) (x : o.Res) : o.readings x = [] := by
  cases o with
  | now => exact ho.elim
  | _ => rfl

theorem exec_of_clocked (h : Exec clocked p s r s') :
    Exec sem p s.1 r s'.1 := by
  induction p generalizing s with
  | ret a => exact ⟨h.1, congrArg Prod.fst h.2⟩
  | fail e => exact ⟨h.1, congrArg Prod.fst h.2⟩
  | call o k ih =>
      obtain ⟨x, s₁, ⟨hstep, -⟩, hk⟩ := h
      exact ⟨x, s₁.1, hstep, ih x hk⟩

theorem readings_of_noClock (hp : p.Within Op.NoClock) (h : Exec clocked p s r s') :
    s'.2 = s.2 := by
  induction p generalizing s with
  | ret a => exact congrArg Prod.snd h.2
  | fail e => exact congrArg Prod.snd h.2
  | call o k ih =>
      obtain ⟨x, s₁, ⟨-, hread⟩, hk⟩ := h
      rw [ih x (hp.2 x) hk, hread, Op.readings_eq_nil hp.1, List.append_nil]

theorem prefix_of_clocked (h : Exec clocked p s r s') :
    s.2 <+: s'.2 := by
  induction p generalizing s with
  | ret a => exact h.2 ▸ List.prefix_rfl
  | fail e => exact h.2 ▸ List.prefix_rfl
  | call o k ih =>
      obtain ⟨x, s₁, ⟨-, hread⟩, hk⟩ := h
      have hmore : s.2 <+: s₁.2 := hread ▸ List.prefix_append _ _
      exact hmore.trans (ih x hk)

theorem clocked_unixTimestamp {now : Int}
    (h : Exec clocked (unixTimestamp : M ε Int) s (.ok now) s') :
    ∃ ms, now = ms / 1000 ∧ s.1.clock ≤ ms ∧ s'.1 = { s.1 with clock := ms } ∧
      s'.2 = s.2 ++ [ms] := by
  obtain ⟨ms, s₁, hnow, hret⟩ := exec_bind_ok.mp h
  obtain ⟨hms, rfl⟩ := exec_ret.mp hret
  obtain ⟨x, s₂, ⟨hstep, hread⟩, hx, rfl⟩ := hnow
  cases hx
  obtain ⟨hle, hw⟩ := sem_now.mp hstep
  exact ⟨ms, Except.ok.inj hms, hle, hw, hread⟩

end Clocked

/-! ### The parts that do not read the clock -/

section NoClock

variable {α ε : Type} {data : AppState}

theorem noClock_answer (x : Except ErrorResponse α) : (answer x).Within Op.NoClock := by
  cases x <;> trivial

theorem noClock_unwrap (msg : String) (x : Option α) :
    (unwrap msg x : M ε α).Within Op.NoClock := by
  cases x <;> trivial

theorem noClock_select (t : Table) (p : Row t → Bool) : (select t p).Within Op.NoClock :=
  ⟨trivial, fun x => noClock_answer x⟩

theorem noClock_cachePut (c : CacheName) (k : String) (v : CacheVal) :
    (cachePut c k v).Within Op.NoClock := ⟨trivial, fun x => noClock_answer x⟩

theorem noClock_cacheGet (c : CacheName) (k : String) (as : CacheVal → Option α) :
    (cacheGet c k as).Within Op.NoClock := by
  refine within_bind ⟨trivial, fun x => noClock_answer x⟩ fun v => ?_
  rcases v with - | v
  · trivial
  · refine within_bind ?_ fun _ => trivial
    cases as v <;> trivial

theorem noClock_cached {c : CacheName} {k : String} {as : CacheVal → Option α}
    {wrap : α → CacheVal} {load : M ErrorResponse α} (hload : load.Within Op.NoClock) :
    (cached c k as wrap load).Within Op.NoClock := by
  refine within_bind (noClock_cacheGet c k as) fun x => ?_
  rcases x with - | a
  · exact within_bind hload fun a => within_bind (noClock_cachePut c k _) fun _ => trivial
  · trivial

theorem noClock_findLatest (alg : String) (typ : JwkKeyPairAlg) :
    (JwkKeyPair.findLatest data alg typ).Within Op.NoClock := by
  refine noClock_cached (within_bind (noClock_select _ _) fun rows => ?_)
  exact within_bind (noClock_unwrap _ _) fun jwk => noClock_answer _

theorem noClock_customAttrs (attrs : List UserAttrValueEntity) (attr : List (String × String))
    (names : List String) : (customAttrs data attrs attr names).Within Op.NoClock := by
  induction names generalizing attr with
  | nil => trivial
  | cons name names ih =>
      rw [customAttrs]
      split
      · exact ih attr
      · exact within_bind (noClock_unwrap _ _) fun json => ih _

theorem noClock_customClaims (field : Scope → Option String) (customs : Option ScopeCustoms) :
    (customClaims data field customs).Within Op.NoClock := by
  rcases customs with - | ⟨cust, attrs⟩
  · trivial
  · refine within_bind (noClock_unwrap _ _) fun attrs => ?_
    exact within_bind (noClock_customAttrs attrs [] _) fun _ => trivial

theorem noClock_customsOf (user : User) (scope : String) :
    (TokenSet.customsOf user scope).Within Op.NoClock := by
  unfold TokenSet.customsOf
  dsimp only
  split
  · trivial
  refine within_bind (noClock_cached (noClock_select _ _)) fun scps => ?_
  refine within_bind ?_ fun _ => trivial
  unfold TokenSet.userAttrsFor
  split
  · exact within_bind (noClock_cached (noClock_select _ _)) fun _ => trivial
  · trivial

theorem noClock_userValuesFor (needed : Bool) (id : String) :
    (userValuesFor needed id).Within Op.NoClock := by
  have hload : (do
      let slf ← fetchOptional .usersValues fun v => v.id == id
      cachePut .users (UserValues.cacheIdx id) (.userValues slf)
      return slf).Within Op.NoClock :=
    within_bind (within_bind (noClock_select _ _) fun _ => trivial) fun _ =>
      within_bind (noClock_cachePut _ _ _) fun _ => trivial
  unfold userValuesFor
  split
  · refine within_bind (within_tried (noClock_cacheGet _ _ _)) fun x => ?_
    rcases x with e | - | v
    · exact hload
    · exact hload
    · trivial
  · trivial

end NoClock

/-! ### Keys -/

section Keys

variable {data : AppState} {w w' : World}

theorem LatestTyped.of_touches {ε α : Type} {ts : List Table} {cs : List (CacheName × Slot)}
    {p : Prog Op Op.Res ε α} {s s' : World × List Int} {r : Except ε α} (h : LatestTyped s.1)
    (hp : Touches ts cs p) (hcs : (.c12hr, .jwkKeyPair) ∉ cs) (hx : Exec clocked p s r s') :
    LatestTyped s'.1 := by
  intro alg typ kp halg hkp
  rcases (hp.frame (exec_of_clocked hx)).cache _ _ _ hkp with hkp | hslot
  · exact h alg typ kp halg hkp
  · exact absurd hslot hcs

theorem LatestTyped.findLatest (h : LatestTyped w) {alg : String} {typ : JwkKeyPairAlg}
    (halg : JwkKeyPairAlg.fromStr alg = .ok typ) {kp : JwkKeyPair}
    (hx : Exec sem (JwkKeyPair.findLatest data alg typ) w (.ok kp) w') :
    kp.typ = typ ∧ LatestTyped w' := by
  rcases exec_cached hx with ⟨v, hv, hkp, rfl⟩ | ⟨w₁, w₂, hw, hload, rfl⟩
  · cases v <;> cases hkp
    exact ⟨h alg typ kp halg hv, h⟩
  · obtain ⟨rows, w₃, hrows, hrest⟩ := exec_bind_ok.mp hload
    obtain ⟨jwk, w₄, hjwk, hdecrypt⟩ := exec_bind_ok.mp hrest
    obtain ⟨hkp, hw₂⟩ := exec_answer.mp hdecrypt
    have htyp : kp.typ = typ := by
      obtain ⟨bytes, -, hkp⟩ := bind_eq_ok.mp hkp
      cases hkp
      rfl
    have h₂ : LatestTyped w₂ := by
      rw [hw₂, (exec_unwrap.mp hjwk).2, (exec_select.mp hrows).2]
      rcases hw with rfl | rfl
      · exact h
      · intro alg' typ' kp' halg' hkp'
        rw [World.del_cache] at hkp'
        split at hkp'
        · cases hkp'
        · exact h alg' typ' kp' halg' hkp'
    refine ⟨htyp, fun alg' typ' kp' halg' hkp' => ?_⟩
    rw [World.put_cache] at hkp'
    split at hkp'
    · next heq =>
        cases hkp'
        have hsame : alg' = alg := (String.append_right_inj _).mp heq.2
        rw [hsame, halg] at halg'
        cases halg'
        exact htyp
    · exact h₂ alg' typ' kp' halg' hkp'

end Keys

/-! ### Hashes -/

theorem build_injective (data : AppState) (bytes : Bytes) :
    Function.Injective (AtHash.build data bytes) := by
  intro alg alg' h
  have hlist := String.ofList_injective h
  have hdecode := congrArg (Base64.decode Base64.urlSafe false) hlist
  rw [Base64.decode_encode, Base64.decode_encode] at hdecode
  have hlen := congrArg List.length (Option.some.inj hdecode)
  rw [List.length_take, List.length_take, (data.digest alg bytes).2, (data.digest alg' bytes).2]
    at hlen
  cases alg <;> cases alg' <;> first | rfl | exact absurd hlen (by decide)

theorem tryFrom_of_fromStr {alg : String} {typ : JwkKeyPairAlg}
    (h : JwkKeyPairAlg.fromStr alg = .ok typ) : AtHashAlg.tryFrom alg = .ok typ.hash := by
  rw [asStr_of_fromStr h]
  cases typ <;> rfl

/-! ### Token sets -/

section Consistent

variable {data : AppState} {user : User} {client : Client} {fp nonce scopes : Option String}
  {acf : AuthCodeFlow} {dcf : DeviceCodeFlow} {ts : TokenSet} {w w' : World} {readings : List Int}

/-- The lifetime of the tokens, and what has been read from the clock for it. -/
theorem clocked_lifetimeOf {s s' : World × List Int} {lt : Int}
    (h : Exec clocked (TokenSet.lifetimeOf user client) s (.ok lt) s') :
    (user.userExpires = none ∧ lt = client.accessTokenLifetime.natAbs ∧ s' = s) ∨
    ∃ exp ms, user.userExpires = some exp ∧ s.1.clock ≤ ms ∧ 1 ≤ exp - ms / 1000 ∧
      lt = min (client.accessTokenLifetime.natAbs : Int) (exp - ms / 1000) ∧
      s'.1 = { s.1 with clock := ms } ∧ s'.2 = s.2 ++ [ms] := by
  unfold TokenSet.lifetimeOf at h
  rcases hexp : user.userExpires with - | exp
  · rw [hexp] at h
    obtain ⟨hlt, rfl⟩ := exec_ret.mp h
    exact .inl ⟨rfl, Except.ok.inj hlt, rfl⟩
  · rw [hexp] at h
    obtain ⟨now, s₁, hnow, hrest⟩ := exec_bind_ok.mp h
    obtain ⟨_, s₂, hthrow, hret⟩ := exec_bind_ok.mp hrest
    obtain ⟨hdiff, rfl⟩ := exec_throwIf_ok.mp hthrow
    obtain ⟨hlt, rfl⟩ := exec_ret.mp hret
    obtain ⟨ms, rfl, hms, hw, hread⟩ := clocked_unixTimestamp hnow
    exact .inr ⟨exp, ms, rfl, hms, not_lt.mp hdiff, Except.ok.inj hlt, hw, hread⟩

/-- How a token set has been made: the seconds of its tokens, its lifetime, its hash, and the
readings of the clock up to the id token. -/
structure Made (data : AppState) (user : User) (client : Client) (ts : TokenSet)
    (readings : List Int) (lt : Int) (access : JWTClaims JwtAccessClaims)
    (id : JWTClaims JwtIdClaims) : Prop where
  lifetime : user.userExpires = none ∧ lt = client.accessTokenLifetime.natAbs ∨
    ∃ exp ms ms₁ ms₂ ms₃ rest, user.userExpires = some exp ∧ 1 ≤ exp - ms / 1000 ∧
      lt = min (client.accessTokenLifetime.natAbs : Int) (exp - ms / 1000) ∧
      readings = ms :: ms₁ :: ms₂ :: ms₃ :: rest ∧ ms ≤ ms₁ ∧ ms₁ ≤ ms₂ ∧ ms₂ ≤ ms₃ ∧
      access.issuedAt = ms₁ / 1000 ∧ id.issuedAt = ms₃ / 1000
  accessExp : access.expiresAt = access.issuedAt + lt
  idExp : id.expiresAt = id.issuedAt + lt
  reported : ts.expiresIn = client.accessTokenLifetime
  accessSigned : ∃ kp, data.signJwt kp (.access access) = .ok ts.accessToken
  idSigned : ∃ typ kp token, JwkKeyPairAlg.fromStr client.idTokenAlg = .ok typ ∧ kp.typ = typ ∧
    ts.idToken = some token ∧ data.signJwt kp (.id id) = .ok token
  hash : ∃ alg, AtHashAlg.tryFrom client.accessTokenAlg = .ok alg ∧
    id.custom.atHash = AtHash.build data (Text.asBytes ts.accessToken) alg

theorem exists_made (hkeys : LatestTyped w)
    (h : Exec clocked (TokenSet.fromUser data user client fp nonce scopes acf dcf) (w, []) (.ok ts)
      (w', readings)) : ∃ lt access id, Made data user client ts readings lt access id := by
  obtain ⟨customs, customsId, lt, atHash, idToken, refreshToken, s₁, s₂, s₃, s₄, hcustoms, hlt,
    haccess, hhash, hid, hrefresh, hidToken, hreported⟩ := TokenSet.fromUser_built h
  obtain ⟨access, s₅, s₆, hclaims, hiat, hexp, hsign⟩ := buildAccessToken_built haccess
  obtain ⟨id, now, values, s₇, s₈, s₉, s₁₀, hnow, hvalues, hclaimsId, hiatId, hexpId, hatHash,
    hsignId⟩ := buildIdToken_built hid
  obtain ⟨typ, kp, halg, hkp, htoken⟩ := signAccessToken_signed hsign
  obtain ⟨typ', kp', halg', hkp', htoken'⟩ := signIdToken_signed hsignId
  obtain ⟨ms₁, hms₁, hle₁, hw₁, hread₁⟩ := clocked_unixTimestamp hiat
  obtain ⟨ms₂, hms₂, hle₂, hw₂, hread₂⟩ := clocked_unixTimestamp hnow
  obtain ⟨ms₃, hms₃, hle₃, hw₃, hread₃⟩ := clocked_unixTimestamp hiatId
  -- the cached keys stay of their types
  have hkeys₁ : LatestTyped s₁.1 :=
    hkeys.of_touches (TokenSet.customsOf_touches user _) (by simp) hcustoms
  have hkeys₂ : LatestTyped s₂.1 :=
    hkeys₁.of_touches (TokenSet.lifetimeOf_touches user client) (by simp) hlt
  have hkeys₅ : LatestTyped s₅.1 :=
    hkeys₂.of_touches (customClaims_touches data _ customs) (by simp) hclaims
  have hkeys₆ : LatestTyped s₆.1 :=
    hkeys₅.of_touches (touches_unixTimestamp : Touches [] [] _) (by simp) hiat
  have hkeys₃ : LatestTyped s₃.1 := (hkeys₆.findLatest halg (exec_of_clocked hkp)).2
  have hkeys₇ : LatestTyped s₇.1 :=
    hkeys₃.of_touches (touches_unixTimestamp : Touches [] [] _) (by simp) hnow
  have hkeys₈ : LatestTyped s₈.1 :=
    hkeys₇.of_touches (userValuesFor_touches _ user.id) (by simp) hvalues
  have hkeys₉ : LatestTyped s₉.1 :=
    hkeys₈.of_touches (customClaims_touches data _ customsId) (by simp) hclaimsId
  have hkeys₁₀ : LatestTyped s₁₀.1 :=
    hkeys₉.of_touches (touches_unixTimestamp : Touches [] [] _) (by simp) hiatId
  have htyp := (hkeys₁₀.findLatest halg' (exec_of_clocked hkp')).1
  refine ⟨lt, access, id, ?_, hexp, hexpId, hreported, ⟨kp, htoken⟩,
    ⟨typ', kp', idToken, halg', htyp, hidToken, htoken'⟩, ?_⟩
  · rcases clocked_lifetimeOf hlt with
      ⟨hnone, hlt, -⟩ | ⟨exp, ms, hsome, hle, hdiff, hlt, hw, hread⟩
    · exact .inl ⟨hnone, hlt⟩
    -- the readings, in their order
    have hread₀ := readings_of_noClock (noClock_customsOf user _) hcustoms
    have hread₅ := readings_of_noClock (noClock_customClaims _ customs) hclaims
    have hread₃' := readings_of_noClock (noClock_findLatest _ typ) hkp
    have hread₈ := readings_of_noClock (noClock_userValuesFor _ user.id) hvalues
    have hread₉ := readings_of_noClock (noClock_customClaims _ customsId) hclaimsId
    have hread₄ := readings_of_noClock (noClock_findLatest _ typ') hkp'
    obtain ⟨rest, hrest⟩ := prefix_of_clocked hrefresh
    have hreadings : readings = ms :: ms₁ :: ms₂ :: ms₃ :: rest := by
      rw [hread₄, hread₃, hread₉, hread₈, hread₂, hread₃', hread₁, hread₅, hread, hread₀] at hrest
      exact hrest.symm
    have hclock₁ : ms ≤ ms₁ := by
      have hmono := ((customClaims_touches data _ customs).frame (exec_of_clocked hclaims)).clock
      rw [hw] at hmono
      exact hmono.trans hle₁
    have hclock₂ : ms₁ ≤ ms₂ := by
      have hmono := ((JwkKeyPair.findLatest_touches data _ typ).frame (exec_of_clocked hkp)).clock
      rw [hw₁] at hmono
      exact hmono.trans hle₂
    have hclock₃ : ms₂ ≤ ms₃ := by
      have hmono := ((userValuesFor_touches _ user.id).frame (exec_of_clocked hvalues)).clock
      have hmono' := ((customClaims_touches data _ customsId).frame
        (exec_of_clocked hclaimsId)).clock
      rw [hw₂] at hmono
      exact (hmono.trans hmono').trans hle₃
    exact .inr ⟨exp, ms, ms₁, ms₂, ms₃, rest, hsome, hdiff, hlt, hreadings, hclock₁, hclock₂,
      hclock₃, hms₁, hms₃⟩
  · obtain ⟨alg, hfrom, hbuild⟩ := bind_eq_ok.mp hhash
    refine ⟨alg, hfrom, hatHash.trans ?_⟩
    cases hbuild
    rfl

/-- The two algorithms of the client have the same hash function. -/
def HashesAgree (client : Client) : Prop :=
  AtHashAlg.tryFrom client.accessTokenAlg = AtHashAlg.tryFrom client.idTokenAlg

/-- When the parts of a token set that has been made so fit together. -/
theorem Made.consistent_iff {lt : Int} {access : JWTClaims JwtAccessClaims}
    {id : JWTClaims JwtIdClaims} (hmade : Made data user client ts readings lt access id)
    (hsigned : SignedReadable data) :
    ts.Consistent data user ↔ HashesAgree client ∧ 0 ≤ client.accessTokenLifetime ∧
      ∀ exp ms, user.userExpires = some exp → readings[3]? = some ms →
        ms / 1000 + client.accessTokenLifetime ≤ exp := by
  obtain ⟨kp, haccess⟩ := hmade.accessSigned
  obtain ⟨typ, kp', token, halg, htyp, hid, htoken⟩ := hmade.idSigned
  obtain ⟨alg, hfrom, hhash⟩ := hmade.hash
  have hagree : HashesAgree client ↔ alg = kp'.typ.hash := by
    rw [HashesAgree, hfrom, tryFrom_of_fromStr halg, htyp, Except.ok.injEq]
  constructor
  · intro hcons
    obtain ⟨-, hreported⟩ := hcons.access kp access haccess
    obtain ⟨hexp, hatHash⟩ := hcons.id token kp' id hid htoken
    rw [hmade.reported, hmade.accessExp] at hreported
    have hlt : client.accessTokenLifetime = lt := by omega
    refine ⟨hagree.mpr (build_injective data _ (hhash.symm.trans hatHash)), ?_, ?_⟩
    · rcases hmade.lifetime with ⟨-, hlt⟩ | ⟨exp, ms, ms₁, ms₂, ms₃, rest, -, hdiff, hlt, -⟩
      · omega
      · omega
    · intro exp ms hsome hms
      rcases hmade.lifetime with ⟨hnone, -⟩ |
        ⟨exp', ms₀, ms₁, ms₂, ms₃, rest, hsome', -, -, hread, -, -, -, -, hiat⟩
      · rw [hsome] at hnone
        cases hnone
      · have hle := hexp exp hsome
        rw [hread] at hms
        cases hms
        rw [hmade.idExp, hiat, ← hlt] at hle
        exact hle
  · rintro ⟨hhashes, hnonneg, hroom⟩
    have hlifetime : lt = client.accessTokenLifetime ∧ ∀ exp, user.userExpires = some exp →
        access.expiresAt ≤ exp ∧ id.expiresAt ≤ exp := by
      rcases hmade.lifetime with ⟨hnone, hlt⟩ |
        ⟨exp, ms, ms₁, ms₂, ms₃, rest, hsome, -, hlt, hread, hle₁, hle₂, hle₃, hiat, hiatId⟩
      · refine ⟨by omega, fun exp hsome => ?_⟩
        rw [hnone] at hsome
        cases hsome
      · have hroom := hroom exp ms₃ hsome (by rw [hread]; rfl)
        refine ⟨by omega, fun exp' hsome' => ?_⟩
        rw [hsome] at hsome'
        cases hsome'
        rw [hmade.accessExp, hmade.idExp, hiat, hiatId]
        omega
    refine ⟨fun kp₁ claims hclaims => ?_, fun token' kp₁ claims hid' hclaims => ?_⟩
    · have hsame := (hsigned _ _ _ _ _ haccess hclaims).2
      cases hsame
      refine ⟨fun exp hsome => (hlifetime.2 exp hsome).1, ?_⟩
      rw [hmade.reported, hmade.accessExp]
      omega
    · rw [hid] at hid'
      cases hid'
      obtain ⟨htyp', hsame⟩ := hsigned _ _ _ _ _ htoken hclaims
      cases hsame
      refine ⟨fun exp hsome => (hlifetime.2 exp hsome).2, ?_⟩
      rw [hhash, ← htyp', hagree.mp hhashes]

/-- **When the parts of a token set fit together**: the hash function is the same for both tokens,
and the user does not expire before the lifetime of the client ends, counted from the second in
which the id token is made, the fourth reading of the clock. -/
theorem token_set_consistent_iff (hkeys : LatestTyped w) (hsigned : SignedReadable data)
    (h : Exec clocked (TokenSet.fromUser data user client fp nonce scopes acf dcf) (w, []) (.ok ts)
      (w', readings)) :
    ts.Consistent data user ↔ HashesAgree client ∧ 0 ≤ client.accessTokenLifetime ∧
      ∀ exp ms, user.userExpires = some exp → readings[3]? = some ms →
        ms / 1000 + client.accessTokenLifetime ≤ exp := by
  obtain ⟨lt, access, id, hmade⟩ := exists_made hkeys h
  exact hmade.consistent_iff hsigned

end Consistent

/-! ### A user that expires -/

/-- A library that signs with EdDSA only. -/
def edDSAState : AppState :=
  { sampleState with
    signJwt := fun kp c => if kp.typ = .edDSA then .ok (dotted c) else .error ⟨.internal, "key"⟩ }

theorem signedReadable_edDSAState : SignedReadable edDSAState := by
  have hsign : ∀ kp c token, edDSAState.signJwt kp c = .ok token →
      kp.typ = .edDSA ∧ dotted c = token := by
    intro kp c token h
    simp only [edDSAState] at h
    split at h
    · next htyp => exact ⟨htyp, Except.ok.inj h⟩
    · cases h
  intro kp kp' c c' token h h'
  obtain ⟨htyp, htoken⟩ := hsign kp c token h
  obtain ⟨htyp', htoken'⟩ := hsign kp' c' token h'
  have hc : some c = some c' := by
    rw [← readDotted_dotted c, ← readDotted_dotted c', htoken, htoken']
  exact ⟨htyp.trans htyp'.symm, Option.some.inj hc⟩

theorem latestTyped_valuesWorld : LatestTyped valuesWorld := by
  intro alg typ kp halg hkp
  rw [asStr_of_fromStr halg] at hkp
  have hother : ∀ typ : JwkKeyPairAlg, typ ≠ .edDSA →
      valuesWorld.cache .c12hr ("jwk_latest_" ++ typ.asStr) = none := by
    intro typ htyp
    cases typ <;> first | rfl | exact absurd rfl htyp
  by_cases htyp : typ = .edDSA
  · subst htyp
    cases hkp
    rfl
  · rw [hother typ htyp] at hkp
    cases hkp

/-- Alice, until then -/
def expiringUser (exp : Int) : User := { sampleUser with userExpires := some exp }

theorem clocked_of_noClock {ε α : Type} {p : Prog Op Op.Res ε α} (hp : p.Within Op.NoClock)
    {w w' : World} {r : Except ε α} (l : List Int) (h : Exec sem p w r w') :
    Exec clocked p (w, l) r (w', l) := by
  induction p generalizing w with
  | ret a => exact ⟨h.1, by rw [h.2]⟩
  | fail e => exact ⟨h.1, by rw [h.2]⟩
  | call o k ih =>
      obtain ⟨x, w₁, hstep, hk⟩ := h
      refine ⟨x, (w₁, l), ⟨hstep, ?_⟩, ih x (hp.2 x) hk⟩
      rw [Op.readings_eq_nil hp.1, List.append_nil]

/-! The run of the example, all in the first second. -/

section Example

variable (l : List Int)

theorem clocked_unixTimestamp_zero : Exec clocked (unixTimestamp : M ErrorResponse Int)
    (valuesWorld, l) (.ok 0) (valuesWorld, l ++ [0]) := by
  refine exec_bind_ok.mpr ⟨0, (valuesWorld, l ++ [0]), ?_, rfl, rfl⟩
  exact ⟨0, (valuesWorld, l ++ [0]), ⟨sem_now.mpr ⟨le_rfl, rfl⟩, rfl⟩, rfl, rfl⟩

theorem clocked_findLatest : Exec clocked (JwkKeyPair.findLatest edDSAState "EdDSA" .edDSA)
    (valuesWorld, l) (.ok ⟨"kid", .edDSA, []⟩) (valuesWorld, l) :=
  clocked_of_noClock (noClock_findLatest _ _) l (exec_cached_hit rfl rfl)

theorem exists_bind {α β : Type} {p : M ErrorResponse α} {f : α → M ErrorResponse β} {a : α}
    {s s' s'' : World × List Int} (ha : Exec clocked p s (.ok a) s')
    (hb : ∃ b, Exec clocked (f a) s' (.ok b) s'') : ∃ b, Exec clocked (p >>= f) s (.ok b) s'' := by
  obtain ⟨b, hb⟩ := hb
  exact ⟨b, exec_bind_ok.mpr ⟨a, s', ha, hb⟩⟩

theorem exists_signed {α : Type} (custom : α) (lifetime : Int) (sub : Option String)
    (aud : List String) (nonce : Option String) {sign : JWTClaims α → M ErrorResponse String}
    (hsign : ∀ claims, ∃ token,
      Exec clocked (sign claims) (valuesWorld, l ++ [0]) (.ok token) (valuesWorld, l ++ [0])) :
    ∃ token, Exec clocked (newClaims edDSAState custom lifetime sub aud nonce >>= sign)
      (valuesWorld, l) (.ok token) (valuesWorld, l ++ [0]) :=
  exists_bind (exec_bind_ok.mpr ⟨0, _, clocked_unixTimestamp_zero l, rfl, rfl⟩) (hsign _)

theorem clocked_signAccessToken (claims : JWTClaims JwtAccessClaims) :
    Exec clocked (signAccessToken edDSAState claims sampleClient) (valuesWorld, l)
      (.ok (dotted (.access claims))) (valuesWorld, l) := by
  unfold signAccessToken
  have halg : JwkKeyPairAlg.fromStr sampleClient.accessTokenAlg = .ok .edDSA := rfl
  refine exec_bind_ok.mpr ⟨.edDSA, _, exec_answer.mpr ⟨halg, rfl⟩, ?_⟩
  exact exec_bind_ok.mpr ⟨_, _, clocked_findLatest l, exec_answer.mpr ⟨rfl, rfl⟩⟩

theorem clocked_signIdToken (claims : JWTClaims JwtIdClaims) :
    Exec clocked (signIdToken edDSAState claims sampleClient) (valuesWorld, l)
      (.ok (dotted (.id claims))) (valuesWorld, l) := by
  unfold signIdToken
  have halg : JwkKeyPairAlg.fromStr sampleClient.idTokenAlg = .ok .edDSA := rfl
  refine exec_bind_ok.mpr ⟨.edDSA, _, exec_answer.mpr ⟨halg, rfl⟩, ?_⟩
  exact exec_bind_ok.mpr ⟨_, _, clocked_findLatest l, exec_answer.mpr ⟨rfl, rfl⟩⟩

theorem clocked_buildAccessToken (user : User) (lt : Int) :
    ∃ token, Exec clocked (buildAccessToken edDSAState (some user) sampleClient none lt
      (some "openid") none .no) (valuesWorld, l) (.ok token) (valuesWorld, l ++ [0]) := by
  have hcustom : Exec clocked (customClaims edDSAState Scope.attrIncludeAccess none)
      (valuesWorld, l) (.ok none) (valuesWorld, l) := ⟨rfl, rfl⟩
  unfold buildAccessToken
  refine exists_bind hcustom (exists_signed l _ lt _ _ _ fun claims => ?_)
  exact ⟨_, clocked_signAccessToken _ claims⟩

theorem clocked_buildIdToken (user : User) (hash : String) (lt : Int) :
    ∃ token, Exec clocked (buildIdToken edDSAState user sampleClient none hash lt none "openid"
      none .yes) (valuesWorld, l) (.ok token) (valuesWorld, l ++ [0] ++ [0]) := by
  have hneeded : (Text.contains "openid" "profile" || Text.contains "openid" "address" ||
      Text.contains "openid" "phone") = false := by decide
  have hvalues : Exec clocked (userValuesFor (Text.contains "openid" "profile" ||
      Text.contains "openid" "address" || Text.contains "openid" "phone") user.id)
      (valuesWorld, l ++ [0]) (.ok none) (valuesWorld, l ++ [0]) := by
    rw [hneeded]
    exact ⟨rfl, rfl⟩
  have hcustom : Exec clocked (customClaims edDSAState Scope.attrIncludeId none)
      (valuesWorld, l ++ [0]) (.ok none) (valuesWorld, l ++ [0]) := ⟨rfl, rfl⟩
  unfold buildIdToken
  refine exists_bind (clocked_unixTimestamp_zero l) (exists_bind hvalues (exists_bind hcustom ?_))
  exact exists_signed _ _ lt _ _ _ fun claims => ⟨_, clocked_signIdToken _ claims⟩

theorem exists_token_set {exp : Int} (hexp : 1 ≤ exp) : ∃ ts,
    Exec clocked (TokenSet.fromUser edDSAState (expiringUser exp) sampleClient none none
      (some "openid") .yes .no) (valuesWorld, []) (.ok ts) (valuesWorld, [0, 0, 0, 0]) := by
  have hcustoms : Exec clocked (TokenSet.customsOf (expiringUser exp) "openid") (valuesWorld, [])
      (.ok (none, none)) (valuesWorld, []) := by
    have hempty : (Scope.extractCustom "openid").isEmpty = true := by decide
    unfold TokenSet.customsOf
    dsimp only
    rw [if_pos hempty]
    exact ⟨rfl, rfl⟩
  have hlifetime : ∃ lt, Exec clocked (TokenSet.lifetimeOf (expiringUser exp) sampleClient)
      (valuesWorld, []) (.ok lt) (valuesWorld, [0]) := by
    refine exists_bind (clocked_unixTimestamp_zero []) (exists_bind (a := ()) ?_ ⟨_, rfl, rfl⟩)
    exact exec_throwIf_ok.mpr ⟨by omega, rfl⟩
  have halg : AtHashAlg.tryFrom sampleClient.accessTokenAlg = .ok .sha512 := rfl
  obtain ⟨lt, hlifetime⟩ := hlifetime
  obtain ⟨token, haccess⟩ := clocked_buildAccessToken [0] (expiringUser exp) lt
  obtain ⟨idToken, hid⟩ := clocked_buildIdToken [0, 0] (expiringUser exp)
    (AtHash.build edDSAState (Text.asBytes token) .sha512) lt
  have hhash : TokenSet.atHashOf edDSAState sampleClient token =
      .ok (AtHash.build edDSAState (Text.asBytes token) .sha512) := by
    rw [TokenSet.atHashOf, halg]
    rfl
  unfold TokenSet.fromUser
  refine exists_bind hcustoms (exists_bind hlifetime (exists_bind haccess ?_))
  refine exists_bind (exec_answer.mpr ⟨hhash, rfl⟩) (exists_bind hid ?_)
  exact exists_bind (a := none) ⟨rfl, rfl⟩ ⟨_, rfl, rfl⟩

end Example

theorem token_set_consistent_iff_expiring : ∃ ts,
    Exec clocked (TokenSet.fromUser edDSAState (expiringUser 1800) sampleClient none none
      (some "openid") .yes .no) (valuesWorld, []) (.ok ts) (valuesWorld, [0, 0, 0, 0]) ∧
    ts.Consistent edDSAState (expiringUser 1800) := by
  obtain ⟨ts, hx⟩ := exists_token_set (by decide : (1 : Int) ≤ 1800)
  refine ⟨ts, hx, (token_set_consistent_iff latestTyped_valuesWorld signedReadable_edDSAState
    hx).mpr ⟨rfl, by decide, ?_⟩⟩
  rintro exp ms ⟨⟩ ⟨⟩
  decide

/-- The tokens of a user that expires after 100 seconds live that long, and are said to live for
half an hour. -/
theorem reported_lifetime_wrong :
    ¬ ∀ (data : AppState) (user : User) (client : Client) (fp nonce scopes : Option String)
      (acf : AuthCodeFlow) (dcf : DeviceCodeFlow) (ts : TokenSet) (w w' : World)
      (readings : List Int), LatestTyped w → SignedReadable data →
      Exec clocked (TokenSet.fromUser data user client fp nonce scopes acf dcf) (w, []) (.ok ts)
        (w', readings) → ts.Consistent data user := by
  intro hall
  obtain ⟨ts, hx⟩ := exists_token_set (by decide : (1 : Int) ≤ 100)
  have hcons := hall _ _ _ _ _ _ _ _ _ _ _ _ latestTyped_valuesWorld signedReadable_edDSAState hx
  obtain ⟨lt, access, id, hmade⟩ := exists_made latestTyped_valuesWorld hx
  have hroom := ((hmade.consistent_iff signedReadable_edDSAState).mp hcons).2.2 100 0 rfl rfl
  exact absurd hroom (by decide)

end Rauthy
