/-
Rauthy/Locations.lean

Where a login sends the browser.  The code and the state are added to the redirect URI as text,
behind `?code=` and `&state=`, whatever the redirect URI and the state consist of.

Main results:
  * `StepFor.location`, the location of every login is `codeLocation` with a new code;
  * `code_delivered_iff`, when a client reads the code and the state from it;
  * `query_swallows_code`: a redirect URI with a query of its own.
-/
import Rauthy.DeviceFlow
import Rauthy.Lib.FormUrl
import Rauthy.OneTime
import Rauthy.Validation

namespace Rauthy

open Prog

/-! ### Bytes -/

section Bytes

open FormUrl

variable {r c s z : Bytes}

/-- What a form decoder reads as it is, where it is. -/
structure Verbatim (l : Bytes) : Prop where
  amp : amp ∉ l
  hash : hash ∉ l
  plus : plus ∉ l
  escapes : ¬ Escapes l

theorem Verbatim.decode {l : Bytes} (h : Verbatim l) : decode l = l :=
  decode_eq_self_iff.mpr ⟨h.plus, h.escapes⟩

/-- `code` -/
def codeName : Bytes := Text.asBytes "code"

/-- `state` -/
def stateName : Bytes := Text.asBytes "state"

/-- `?code=..` -/
def codePart (c : Bytes) : Bytes := question :: (codeName ++ equals :: c)

/-- `state=..` -/
def statePart (s : Bytes) : Bytes := stateName ++ equals :: s

theorem codePart_eq (c : Bytes) : codePart c = question :: (codeName ++ [equals]) ++ c := by
  rw [codePart, List.append_cons, List.cons_append]

theorem amp_notMem_codePart (hc : Verbatim c) : amp ∉ codePart c := by
  have hname : amp ∉ question :: (codeName ++ [equals]) := by decide
  rw [codePart_eq]
  exact fun h => (List.mem_append.mp h).elim hname hc.amp

theorem hash_notMem_codePart (hc : Verbatim c) : hash ∉ codePart c := by
  have hname : hash ∉ question :: (codeName ++ [equals]) := by decide
  rw [codePart_eq]
  exact fun h => (List.mem_append.mp h).elim hname hc.hash

theorem decode_equals (l : Bytes) : decode (equals :: l) = equals :: decode l :=
  decode_other (by decide) fun h => absurd h (by decide)

theorem decode_question (l : Bytes) : decode (question :: l) = question :: decode l :=
  decode_other (by decide) fun h => absurd h (by decide)

theorem decode_codePart (hc : Verbatim c) : decode (codePart c) = codePart c := by
  have hname : decode codeName = codeName := by decide
  rw [codePart, decode_question, decode_append (by decide), hname, decode_equals, hc.decode]

/-- How the last parameter changes when the code is added behind it. -/
theorem pair_codePart (hc : Verbatim c) (z : Bytes) :
    equals ∉ z ∧ pair z = (decode z, []) ∧
      pair (z ++ codePart c) = (decode z ++ question :: codeName, c) ∨
    equals ∈ z ∧ ∃ n v, pair z = (n, v) ∧ pair (z ++ codePart c) = (n, v ++ codePart c) := by
  by_cases hz : equals ∈ z
  · obtain ⟨n, v, rfl, hn⟩ := List.eq_append_cons_of_mem hz
    refine .inr ⟨hz, decode n, decode v, pair_append hn v, ?_⟩
    rw [List.append_assoc, List.cons_append, pair_append hn]
    have hv : decode (v ++ codePart c) = decode v ++ decode (codePart c) :=
      decode_append (by decide)
    rw [hv, decode_codePart hc]
  · refine .inl ⟨hz, pair_of_notMem hz, ?_⟩
    have hname : equals ∉ z ++ question :: codeName := by
      have hcode : equals ∉ question :: codeName := by decide
      exact fun h => (List.mem_append.mp h).elim hz hcode
    have hsplit : z ++ codePart c = (z ++ question :: codeName) ++ equals :: c := by
      rw [codePart, List.append_assoc, List.cons_append]
    have hdecode : decode (question :: codeName) = question :: codeName := by decide
    rw [hsplit, pair_append hname, decode_append (by decide), hdecode, hc.decode]

/-- The parameters of the state, as far as a fragment leaves it. -/
theorem params_statePart (s : Bytes) :
    amp ∉ s ∧ params (statePart s) = [(stateName, decode s)] ∨
    ∃ x y, s = x ++ amp :: y ∧ params (statePart s) = (stateName, decode x) :: params y := by
  have hsingle : ∀ x, amp ∉ x → params (statePart x) = [(stateName, decode x)] := by
    intro x hx
    have hname : amp ∉ stateName ++ [equals] := by decide
    have hpart : amp ∉ statePart x := by
      intro h
      rw [statePart, List.append_cons] at h
      exact (List.mem_append.mp h).elim hname hx
    have hdecode : decode stateName = stateName := by decide
    have hne : statePart x ≠ [] := by
      intro h
      cases h
    rw [params_single hpart hne, statePart, pair_append (by decide), hdecode]
  by_cases hs : amp ∈ s
  · obtain ⟨x, y, rfl, hx⟩ := List.eq_append_cons_of_mem hs
    refine .inr ⟨x, y, rfl, ?_⟩
    have hsplit : statePart (x ++ amp :: y) = statePart x ++ amp :: y := by
      rw [statePart, statePart, List.append_assoc, List.cons_append]
    rw [hsplit, params_append, hsingle x hx]
    rfl
  · exact .inl ⟨hs, hsingle s hs⟩

/-- The parameters of a query that the code is added to, with a question mark. -/
theorem params_codePart (hc : Verbatim c) (q : Bytes) :
    ∃ ps z, amp ∉ z ∧ params q = ps ++ params z ∧
      params (q ++ codePart c) = ps ++ [pair (z ++ codePart c)] :=
  params_extended (amp_notMem_codePart hc) (List.cons_ne_nil _ _) q

theorem params_code (hc : Verbatim c) : params (codeName ++ equals :: c) = [(codeName, c)] := by
  have hamp : amp ∉ codeName ++ equals :: c := fun h =>
    amp_notMem_codePart hc (List.mem_cons_of_mem _ h)
  have hname : decode codeName = codeName := by decide
  rw [params_single hamp (List.append_ne_nil_of_right_ne_nil _ (List.cons_ne_nil _ _)),
    pair_append (by decide), hname, hc.decode]

/-- No parameter that the code has been added to is the code. -/
theorem pair_codePart_ne (hc : Verbatim c) (z : Bytes) :
    pair (z ++ codePart c) ≠ (codeName, c) := by
  intro h
  rcases pair_codePart hc z with ⟨-, -, hpair⟩ | ⟨-, n, v, -, hpair⟩
  · rw [hpair] at h
    have hlen := congrArg (List.length ∘ Prod.fst) h
    have hname : codeName.length = 4 := by decide
    simp only [Function.comp_apply, List.length_append, List.length_cons] at hlen
    omega
  · rw [hpair] at h
    have hlen := congrArg (List.length ∘ Prod.snd) h
    simp only [Function.comp_apply, codePart, List.length_append, List.length_cons] at hlen
    omega

/-- A redirect URI without a state: it must have neither a query nor a fragment. -/
theorem code_delivered_iff_none (hc : Verbatim c) :
    (params (query (r ++ codePart c))).Perm (params (query r) ++ [(codeName, c)]) ↔
      question ∉ r ∧ hash ∉ r := by
  constructor
  · intro h
    have hhash : hash ∉ r := by
      intro hr
      have hlen := h.length_eq
      rw [query_append_of_hash hr, List.length_append] at hlen
      simp at hlen
    refine ⟨fun hr => ?_, hhash⟩
    have hclean : (codePart c).takeWhile (· ≠ hash) = codePart c := by
      have hself := takeWhile_hash (hash_notMem_codePart hc) []
      rwa [List.append_nil, List.takeWhile_nil, List.append_nil] at hself
    obtain ⟨ps, z, -, hq, hext⟩ := params_codePart hc (query r)
    rw [query_append hhash hr, hclean, hext, hq, List.append_assoc, List.perm_append_left_iff] at h
    have hmem := h.mem_iff.mpr (List.mem_append_right _ (List.mem_singleton_self _))
    exact pair_codePart_ne hc z (List.mem_singleton.mp hmem).symm
  · rintro ⟨hquestion, hhash⟩
    have hclean : (codeName ++ equals :: c).takeWhile (· ≠ hash) = codeName ++ equals :: c := by
      have hnot : hash ∉ codeName ++ equals :: c := fun h =>
        hash_notMem_codePart hc (List.mem_cons_of_mem _ h)
      have hself := takeWhile_hash hnot []
      rwa [List.append_nil, List.takeWhile_nil, List.append_nil] at hself
    rw [codePart, query_append_question hhash hquestion, hclean, params_code hc,
      query_of_notMem hquestion, params_nil, List.nil_append]

/-- A fragment of the state is cut off; what is left is one parameter if the state is verbatim. -/
theorem params_statePart_iff (s : Bytes) :
    (params (statePart (s.takeWhile (· ≠ hash)))).Perm [(stateName, s)] ↔ Verbatim s := by
  have hpre : s.takeWhile (· ≠ hash) <+: s := List.takeWhile_prefix _
  constructor
  · intro h
    rw [List.perm_singleton] at h
    rcases params_statePart (s.takeWhile (· ≠ hash)) with ⟨hamp, hparams⟩ | ⟨x, y, hxy, hparams⟩
    · rw [hparams] at h
      have hdecode : decode (s.takeWhile (· ≠ hash)) = s := (Prod.mk.inj (List.cons.inj h).1).2
      -- nothing has been cut off
      have hle := length_decode_le (s.takeWhile (· ≠ hash))
      rw [hdecode] at hle
      have hself : s.takeWhile (· ≠ hash) = s := hpre.eq_of_length (le_antisymm hpre.length_le hle)
      rw [hself] at hdecode hamp
      obtain ⟨hplus, hesc⟩ := decode_eq_self_iff.mp hdecode
      refine ⟨hamp, fun hmem => ?_, hplus, hesc⟩
      have hne := List.takeWhile_eq_self_iff.mp hself _ hmem
      exact absurd hne (by decide)
    · rw [hparams] at h
      have hdecode : decode x = s := (Prod.mk.inj (List.cons.inj h).1).2
      have hle := length_decode_le x
      have hlen := hpre.length_le
      rw [hxy, List.length_append, List.length_cons] at hlen
      rw [hdecode] at hle
      omega
  · intro hs
    have hclean := takeWhile_hash hs.hash []
    rw [List.append_nil, List.takeWhile_nil, List.append_nil] at hclean
    rw [hclean]
    rcases params_statePart s with ⟨-, hparams⟩ | ⟨x, y, hxy, -⟩
    · rw [hparams, hs.decode]
    · refine absurd ?_ hs.amp
      rw [hxy]
      exact List.mem_append_right _ List.mem_cons_self

/-- A value that ends in the code and begins with the first parameter of the state: the `&` of the
state would stand in the code. -/
theorem no_amp_overlap (hc : Verbatim c) {v x y : Bytes} (hle : v.length ≤ x.length) :
    v ++ codePart c ≠ x ++ amp :: y := by
  intro h
  rcases List.append_eq_append_iff.mp h with ⟨a, -, ha⟩ | ⟨a, hv, ha⟩
  · exact amp_notMem_codePart hc (by rw [ha]; exact List.mem_append_right _ List.mem_cons_self)
  · have hnil : a = [] := by
      have hlen := congrArg List.length hv
      rw [List.length_append] at hlen
      exact List.length_eq_zero_iff.mp (by omega)
    rw [hnil, List.nil_append] at ha
    exact amp_notMem_codePart hc (by rw [← ha]; exact List.mem_cons_self)

/-- A redirect URI that has a query takes the code into its last parameter. -/
theorem params_question_ne (hc : Verbatim c) (hz : amp ∉ z) {s' : Bytes} (hs' : s' <+: s) :
    ¬ (pair (z ++ codePart c) :: params (statePart s')).Perm
      (params z ++ [(codeName, c), (stateName, s)]) := by
  have hstate : codeName ≠ stateName := by decide
  have hlong : (question :: codeName).length = stateName.length := by decide
  have hdiff : question :: codeName ≠ stateName := by decide
  intro h
  have hmem := h.mem_iff.mp List.mem_cons_self
  have hcode := pair_codePart_ne hc z
  rw [List.mem_append, List.mem_cons, List.mem_singleton] at hmem
  rcases pair_codePart hc z with ⟨-, hpair, hext⟩ | ⟨heq, n, v, hpair, hext⟩
  · -- a name without a value: it is longer than `code` and than that of the parameter
    rw [hext] at hmem hcode
    have hname : decode z ++ question :: codeName = stateName → z = [] := by
      intro he
      have hlen := congrArg List.length he
      rw [List.length_append, hlong] at hlen
      exact decode_eq_nil.mp (List.length_eq_zero_iff.mp (by omega))
    rcases hmem with hmem | hmem | hmem
    · by_cases hnil : z = []
      · rw [hnil] at hmem
        cases hmem
      · rw [params_single hz hnil, List.mem_singleton, hpair, Prod.mk.injEq] at hmem
        exact absurd hmem.1 (by simp)
    · exact hcode hmem
    · have he := (Prod.mk.inj hmem).1
      rw [hname he] at he
      exact hdiff he
  · have hnil : z ≠ [] := by
      rintro rfl
      exact List.not_mem_nil heq
    rw [hext] at hmem hcode
    rw [params_single hz hnil, hpair] at h hmem
    rcases hmem with hmem | hmem | hmem
    · rw [List.mem_singleton, Prod.mk.injEq] at hmem
      exact absurd hmem.2 (by simp [codePart])
    · exact hcode hmem
    · obtain ⟨rfl, hs⟩ := Prod.mk.inj hmem
      -- what is left are the parameter, and the code
      have hrest : (params (statePart s')).Perm [(stateName, v), (codeName, c)] := by
        rw [hext, ← hs] at h
        have hmove : ([(stateName, v), (codeName, c)] ++ [(stateName, v ++ codePart c)]).Perm
            ([(stateName, v ++ codePart c)] ++ [(stateName, v), (codeName, c)]) :=
          List.perm_append_comm
        exact (h.trans hmove).cons_inv
      rcases params_statePart s' with ⟨-, hparams⟩ | ⟨x, y, hxy, hparams⟩
      · have hlen := hrest.length_eq
        rw [hparams] at hlen
        simp at hlen
      · have hfirst := hrest.mem_iff.mp (by rw [hparams]; exact List.mem_cons_self)
        rw [List.mem_cons, List.mem_singleton, Prod.mk.injEq, Prod.mk.injEq] at hfirst
        rcases hfirst with ⟨-, hx⟩ | ⟨he, -⟩
        · obtain ⟨t, ht⟩ := hs'
          rw [hxy, ← hs, List.append_assoc, List.cons_append] at ht
          exact no_amp_overlap hc (hx ▸ length_decode_le x) ht.symm
        · exact hstate he.symm

theorem code_delivered_iff_some (hc : Verbatim c) :
    (params (query (r ++ codePart c ++ amp :: statePart s))).Perm
        (params (query r) ++ [(codeName, c), (stateName, s)]) ↔
      question ∉ r ∧ hash ∉ r ∧ Verbatim s := by
  have hcut : (amp :: statePart s).takeWhile (· ≠ hash) =
      amp :: statePart (s.takeWhile (· ≠ hash)) := by
    have hname : hash ∉ amp :: (stateName ++ [equals]) := by decide
    have hsplit : ∀ l, amp :: statePart l = amp :: (stateName ++ [equals]) ++ l := by
      intro l
      rw [statePart, List.append_cons, List.cons_append]
    rw [hsplit, hsplit, takeWhile_hash hname]
  have hclean : question ∉ r → hash ∉ r →
      ((params (query (r ++ codePart c ++ amp :: statePart s))).Perm
        (params (query r) ++ [(codeName, c), (stateName, s)]) ↔ Verbatim s) := by
    intro hr hhash
    have hcode : hash ∉ codeName ++ equals :: c := fun h =>
      hash_notMem_codePart hc (List.mem_cons_of_mem _ h)
    rw [codePart, List.append_assoc, List.cons_append, query_append_question hhash hr,
      takeWhile_hash hcode, hcut, params_append, params_code hc, query_of_notMem hr, params_nil,
      List.nil_append, List.singleton_append, List.perm_cons]
    exact params_statePart_iff s
  constructor
  · intro h
    have hhash : hash ∉ r := by
      intro hr
      have hlen := h.length_eq
      rw [List.append_assoc, query_append_of_hash hr, List.length_append] at hlen
      simp at hlen
    by_cases hr : question ∈ r
    · obtain ⟨ps, z, hz, hq, hext⟩ := params_codePart hc (query r)
      rw [List.append_assoc, query_append hhash hr, takeWhile_hash (hash_notMem_codePart hc), hcut,
        ← List.append_assoc, params_append, hext, hq, List.append_assoc, List.append_assoc,
        List.perm_append_left_iff] at h
      exact absurd h (params_question_ne hc hz (List.takeWhile_prefix _))
    · exact ⟨hr, hhash, (hclean hr hhash).mp h⟩
  · rintro ⟨hr, hhash, hs⟩
    exact (hclean hr hhash).mpr hs

end Bytes

/-! ### Texts -/

section Texts

open FormUrl

theorem byte_of_alnum {s : String} (h : s.toList.all isAlnum = true) {b : UInt8}
    (hb : b ∈ Text.asBytes s) : b ≠ amp ∧ b ≠ hash ∧ b ≠ plus ∧ b ≠ percent := by
  obtain ⟨c, hc, hb⟩ := List.mem_flatMap.mp hb
  have halnum := List.all_eq_true.mp h c hc
  rw [String.utf8EncodeChar_eq_singleton (utf8Size_of_isAlnum halnum), List.mem_singleton] at hb
  simp only [isAlnum, Bool.or_eq_true, Bool.and_eq_true, decide_eq_true_eq, Char.le_def,
    UInt32.le_iff_toNat_le] at halnum
  simp only [show 'a'.val.toNat = 97 from rfl, show 'z'.val.toNat = 122 from rfl,
    show 'A'.val.toNat = 65 from rfl, show 'Z'.val.toNat = 90 from rfl,
    show '0'.val.toNat = 48 from rfl, show '9'.val.toNat = 57 from rfl] at halnum
  have hnat : b.toNat = c.val.toNat := by
    rw [hb]
    show c.val.toNat % 256 = c.val.toNat
    omega
  have hne : ∀ x : UInt8, x.toNat < 48 → b ≠ x := by
    rintro x hx rfl
    omega
  exact ⟨hne _ (by decide), hne _ (by decide), hne _ (by decide), hne _ (by decide)⟩

theorem verbatim_of_alnum {s : String} (h : s.toList.all isAlnum = true) :
    Verbatim (Text.asBytes s) where
  amp hb := (byte_of_alnum h hb).1 rfl
  hash hb := (byte_of_alnum h hb).2.1 rfl
  plus hb := (byte_of_alnum h hb).2.2.1 rfl
  escapes := by
    rintro ⟨u, v, huv, -⟩
    have hb : percent ∈ Text.asBytes s := by
      rw [huv]
      exact List.mem_append_right _ List.mem_cons_self
    exact (byte_of_alnum h hb).2.2.2 rfl

/-- The parameters of a location. -/
def queryParams (loc : String) : List (Bytes × Bytes) := params (query (Text.asBytes loc))

/-- The location has the parameters of the redirect URI, and the code and the state once each. -/
def Delivers (redirectUri : String) (state : Option String) (code loc : String) : Prop :=
  (queryParams loc).Perm (queryParams redirectUri ++ (codeName, Text.asBytes code) ::
    (state.map fun s => (stateName, Text.asBytes s)).toList)

/-- The redirect URI has neither a query nor a fragment, and the state is read as it is. -/
structure Appendable (redirectUri : String) (state : Option String) : Prop where
  query : question ∉ Text.asBytes redirectUri
  fragment : hash ∉ Text.asBytes redirectUri
  state : ∀ s, state = some s → Verbatim (Text.asBytes s)

theorem asBytes_code (redirectUri code : String) :
    Text.asBytes (redirectUri ++ "?code=" ++ code) =
      Text.asBytes redirectUri ++ codePart (Text.asBytes code) := by
  have hname : Text.asBytes "?code=" = question :: (codeName ++ [equals]) := by decide
  rw [Text.asBytes_append, Text.asBytes_append, hname, codePart_eq, List.append_assoc]

theorem delivers_codeLocation_iff {code : String} (hcode : code.toList.all isAlnum = true)
    (redirectUri : String) (state : Option String) :
    Delivers redirectUri state code (codeLocation redirectUri code state) ↔
      Appendable redirectUri state := by
  have hc := verbatim_of_alnum hcode
  have hpart := asBytes_code redirectUri code
  rcases state with - | s
  · have hiff := code_delivered_iff_none (r := Text.asBytes redirectUri) hc
    rw [← hpart] at hiff
    exact hiff.trans ⟨fun h => ⟨h.1, h.2, fun _ h => by cases h⟩, fun h => ⟨h.query, h.fragment⟩⟩
  · have hiff := code_delivered_iff_some (r := Text.asBytes redirectUri) (s := Text.asBytes s) hc
    have hstate : Text.asBytes (redirectUri ++ "?code=" ++ code ++ "&state=" ++ s) =
        Text.asBytes redirectUri ++ codePart (Text.asBytes code) ++
          amp :: statePart (Text.asBytes s) := by
      have hname : Text.asBytes "&state=" = amp :: (stateName ++ [equals]) := by decide
      rw [Text.asBytes_append, Text.asBytes_append, hpart, hname, statePart, List.append_cons stateName,
        List.append_assoc _ (amp :: _)]
      rfl
    rw [← hstate] at hiff
    refine hiff.trans ⟨fun h => ⟨h.1, h.2.1, ?_⟩, fun h => ⟨h.query, h.fragment, h.state s rfl⟩⟩
    rintro _ ⟨⟩
    exact h.2.2

end Texts

/-! ### The handlers -/

/-- Where the step sends the browser: in its answer, or in the request that the ceremony finds. -/
def Redirects (w : World) (loc : String) : AuthStep → Prop
  | .loggedIn step => step.headerLoc = loc
  | .awaitWebauthn step => ∃ d : WebauthnLoginReq, d.headerLoc = loc ∧
      w.cache .webauthnData step.code = some (.bytes d.encode)
  | .providerLink => False

/-- The code is cached, under its id. -/
def CodeCached (w : World) (code : String) : Prop :=
  ∃ c : AuthCode, c.id = code ∧ w.cache .authCodes code = some (.authCode c)

/-- A login has got so far that there is a step: one with credentials, one with a session, or one
upstream, whose callback keeps the redirect URI and the state. -/
inductive StepFor (data : AppState) (w w' : World) (step : AuthStep) :
    (redirectUri : String) → (state : Option String) → Prop
  | authorize {req : HttpRequest} {reqData : LoginRequest} {session : Session}
      (h : Exec sem (authorize data req reqData session) w (.ok step) w') :
      StepFor data w w' step reqData.redirectUri reqData.state
  | authorizeRefresh {session : Session} {client : Client} {headerOrigin : Option String}
      {reqData : LoginRefreshRequest}
      (h : Exec sem (authorizeRefresh data session client headerOrigin reqData) w (.ok step) w') :
      StepFor data w w' step reqData.redirectUri reqData.state
  | loginFinish {req : HttpRequest} {slf : AuthProviderCallback} {user : User}
      {providerMfa : ProviderMfaLogin} {session : Session}
      (h : Exec sem (providerLogin data req slf user providerMfa session) w (.ok step) w') :
      StepFor data w w' step slf.reqRedirectUri slf.reqState

section Handlers

variable {data : AppState} {user : User} {client : Client} {session : Session} {w w' : World}
  {loc : String} {origin : Option String} {hashed : Bool} {step : AuthStep}
  {c : AuthCode} {code : String}
  {challenge challengeMethod : Option String} {payload : ProviderCallbackRequest}

theorem issued_of_exec {ε α : Type} {p : Prog Op Op.Res ε α} {r : Except ε α}
    (h : Exec sem p w r w') {x : String} (hx : x ∉ w'.issued) : x ∉ w.issued := by
  have hmono : x ∈ w.issued → x ∈ w'.issued :=
    h.inv (J := fun w => x ∈ w.issued) (within_of_forall (fun _ => trivial) p)
      (fun _ (_ : True) _ _ _ hx hstep => sem_issued hstep hx)
  exact fun hw => hx (hmono hw)

/-- The code is drawn in this run, it is cached, and it consists of letters and digits. -/
structure NewCode (w w' : World) (code : String) : Prop where
  alnum : code.toList.all isAlnum = true
  drawn : code ∉ w.issued
  issued : CodeCached w' code

theorem exec_newCode {nonce : Option String} {scopes : List String} {lifetime : Int}
    {sid : Option String}
    (h : Exec sem (AuthCode.new user.id client.id sid challenge challengeMethod nonce scopes
      lifetime) w (.ok c) w') : c.id.toList.all isAlnum = true ∧ c.id ∉ w.issued := by
  obtain ⟨id, w₁, hid, hrest⟩ := exec_bind_ok.mp h
  obtain ⟨x, w₂, hdraw, hx, -⟩ := hid
  cases hx
  obtain ⟨now, w₃, -, hret⟩ := exec_bind_ok.mp hrest
  cases (exec_ret.mp hret).1
  exact ⟨(sem_getRand.mp hdraw).2.2.1, (sem_getRand.mp hdraw).1⟩

theorem exec_saveCode (h : Exec sem c.save w (.ok ()) w') : CodeCached w' c.id := by
  rw [exec_cachePut.mp h]
  exact ⟨c, rfl, by rw [World.put_cache, if_pos ⟨rfl, rfl⟩]⟩

theorem CodeCached.put {k : String} {n : CacheName} {v : CacheVal} (h : CodeCached w code)
    (hn : n ≠ .authCodes) : CodeCached (w.put n k v) code := by
  obtain ⟨c, hc, hcache⟩ := h
  refine ⟨c, hc, ?_⟩
  rw [World.put_cache, if_neg fun he => hn he.1.symm]
  exact hcache

theorem exec_awaitWebauthn
    (h : Exec sem (awaitWebauthn data user session hashed loc origin) w (.ok step) w')
    (hissued : CodeCached w code) : Redirects w' loc step ∧ CodeCached w' code := by
  obtain ⟨x, w₁, hdraw, hrest⟩ := exec_bind_ok.mp h
  obtain ⟨y, w₂, hsem, hx, rfl⟩ := hdraw
  cases hx
  obtain ⟨-, -, -, rfl⟩ := sem_getRand.mp hsem
  obtain ⟨_, w₃, hsave, hret⟩ := exec_bind_ok.mp hrest
  obtain ⟨hstep, rfl⟩ := exec_ret.mp hret
  cases hstep
  obtain ⟨_, w₄, hfits, hput⟩ := exec_bind_ok.mp hsave
  obtain ⟨-, rfl⟩ := exec_throwIf_ok.mp hfits
  rw [exec_cachePut.mp hput]
  refine ⟨⟨_, rfl, by rw [World.put_cache, if_pos ⟨rfl, rfl⟩]⟩, CodeCached.put ?_ (by decide)⟩
  exact hissued

theorem exec_issueCode {nonce : Option String} {scopes : List String}
    (h : Exec sem (issueCode data user client session challenge challengeMethod nonce scopes) w
      (.ok c) w') : NewCode w w' c.id := by
  obtain ⟨c', w₁, hnew, hrest⟩ := exec_bind_ok.mp h
  obtain ⟨_, w₂, hsave, hret⟩ := exec_bind_ok.mp hrest
  obtain ⟨hc, rfl⟩ := exec_ret.mp hret
  cases hc
  exact ⟨(exec_newCode hnew).1, (exec_newCode hnew).2, exec_saveCode hsave⟩

theorem exec_authorizeStep
    (h : Exec sem (authorizeStep data user session hashed loc origin) w (.ok step) w')
    (hissued : CodeCached w code) : Redirects w' loc step ∧ CodeCached w' code := by
  unfold authorizeStep at h
  split at h
  · obtain ⟨session', w₁, hmfa, hawait⟩ := exec_bind_ok.mp h
    obtain ⟨_, w₂, hsave, hret⟩ := exec_bind_ok.mp hmfa
    obtain ⟨_, w₃, hrow, hput⟩ := exec_bind_ok.mp hsave
    obtain ⟨db, -, rfl⟩ := exec_execute.mp hrow
    refine exec_awaitWebauthn hawait ?_
    rw [(exec_ret.mp hret).2, exec_cachePut.mp hput]
    exact CodeCached.put hissued (by decide)
  · obtain ⟨hstep, rfl⟩ := exec_ret.mp h
    cases hstep
    exact ⟨rfl, hissued⟩

/-- **Where a login sends the browser**: to the redirect URI, with the code and the state. -/
theorem StepFor.location {redirectUri : String} {state : Option String}
    (h : StepFor data w w' step redirectUri state) :
    ∃ code, NewCode w w' code ∧ Redirects w' (codeLocation redirectUri code state) step := by
  cases h with
  | authorize h =>
      obtain ⟨user, w₁, huser, hrest⟩ := exec_bind_ok.mp h
      obtain ⟨⟨user', hashed⟩, w₂, hpassword, hrest⟩ := exec_bind_ok.mp hrest
      obtain ⟨⟨client, origin⟩, w₃, hclient, hrest⟩ := exec_bind_ok.mp hrest
      obtain ⟨c, w₄, hcode, hstep⟩ := exec_bind_ok.mp hrest
      have hnew := exec_issueCode (exec_mapErr_ok.mp hcode)
      obtain ⟨hloc, hissued⟩ := exec_authorizeStep (exec_mapErr_ok.mp hstep) hnew.issued
      have hdrawn : c.id ∉ w.issued :=
        issued_of_exec huser (issued_of_exec hpassword (issued_of_exec hclient hnew.drawn))
      exact ⟨c.id, ⟨hnew.alnum, hdrawn, hissued⟩, hloc⟩
  | authorizeRefresh h =>
      obtain ⟨userId, w₁, hid, hrest⟩ := exec_bind_ok.mp h
      obtain ⟨user, w₂, huser, hrest⟩ := exec_bind_ok.mp hrest
      obtain ⟨_, w₃, henabled, hrest⟩ := exec_bind_ok.mp hrest
      obtain ⟨_, w₄, hexpired, hrest⟩ := exec_bind_ok.mp hrest
      obtain ⟨_, w₅, hmfa, hrest⟩ := exec_bind_ok.mp hrest
      obtain ⟨c, w₆, hcode, hstep⟩ := exec_bind_ok.mp hrest
      have hnew := exec_issueCode hcode
      have hdrawn : c.id ∉ w.issued :=
        issued_of_exec hid (issued_of_exec huser (issued_of_exec henabled
          (issued_of_exec hexpired (issued_of_exec hmfa hnew.drawn))))
      dsimp only at hstep
      split at hstep
      · obtain ⟨hloc, hissued⟩ := exec_awaitWebauthn hstep hnew.issued
        exact ⟨c.id, ⟨hnew.alnum, hdrawn, hissued⟩, hloc⟩
      · obtain ⟨hret, rfl⟩ := exec_ret.mp hstep
        cases hret
        exact ⟨c.id, ⟨hnew.alnum, hdrawn, hnew.issued⟩, rfl⟩
  | loginFinish h =>
      obtain ⟨client, w₁, hclient, hrest⟩ := exec_bind_ok.mp h
      obtain ⟨session', w₂, hmfa, hrest⟩ := exec_bind_ok.mp hrest
      obtain ⟨_, w₃, huri, hrest⟩ := exec_bind_ok.mp hrest
      obtain ⟨_, w₄, hpkce, hrest⟩ := exec_bind_ok.mp hrest
      obtain ⟨origin, w₅, horigin, hrest⟩ := exec_bind_ok.mp hrest
      obtain ⟨c, w₆, hcode, hrest⟩ := exec_bind_ok.mp hrest
      obtain ⟨_, w₇, hsave, hstep⟩ := exec_bind_ok.mp hrest
      obtain ⟨halnum, hnew⟩ := exec_newCode hcode
      have hissued := exec_saveCode hsave
      have hdrawn : c.id ∉ w.issued :=
        issued_of_exec hclient (issued_of_exec hmfa (issued_of_exec huri
          (issued_of_exec hpkce (issued_of_exec horigin hnew))))
      dsimp only at hstep
      split at hstep
      · obtain ⟨hloc, hissued'⟩ := exec_awaitWebauthn hstep hissued
        exact ⟨c.id, ⟨halnum, hdrawn, hissued'⟩, hloc⟩
      · obtain ⟨hret, rfl⟩ := exec_ret.mp hstep
        cases hret
        exact ⟨c.id, ⟨halnum, hdrawn, hissued⟩, rfl⟩

theorem exec_checkCallback {req : HttpRequest} {slf : AuthProviderCallback}
    (h : Exec sem (checkCallback data req payload) w (.ok slf) w') :
    w.cache .authProviderCallback payload.state = some (.authProviderCallback slf) := by
  obtain ⟨cookie, w₁, hcookie, hrest⟩ := exec_bind_ok.mp h
  obtain ⟨-, rfl⟩ := exec_okOr.mp hcookie
  obtain ⟨id, w₂, hid, hstate⟩ := exec_bind_ok.mp hrest
  obtain ⟨-, rfl⟩ := exec_answer.mp hid
  split at hstate
  · obtain ⟨_, _, -, hfail⟩ := exec_bind_ok.mp hstate
    cases hfail.1
  rename_i heq
  obtain ⟨slf', w₃, hfind, hrest⟩ := exec_bind_ok.mp hstate
  obtain ⟨found, w₄, hget, hanswer⟩ := exec_bind_ok.mp hfind
  obtain ⟨hslf, rfl⟩ := exec_okOr.mp hanswer
  have hreturned : slf' = slf := by
    split at hrest
    · obtain ⟨_, _, -, hfail⟩ := exec_bind_ok.mp hrest
      cases hfail.1
    · split at hrest
      · obtain ⟨_, _, -, hfail⟩ := exec_bind_ok.mp hrest
        cases hfail.1
      · exact (Except.ok.inj (exec_ret.mp hrest).1).symm
  rcases exec_cacheGet.mp hget with ⟨hnone, -⟩ | ⟨a, v, hsome, hentry, hv, -⟩
  · cases hnone.symm.trans hslf
  · cases hsome.symm.trans hslf
    cases v <;> cases hv
    rw [← not_not.mp heq, hentry, hreturned]

/-- An upstream login that is no mere link ends as the login of the callback that was saved under
the state of the request. -/
theorem stepFor_loginFinish {req : HttpRequest}
    (h : Exec sem (loginFinish data req payload session) w (.ok step) w')
    (hlink : step ≠ .providerLink) : ∃ slf w₁,
      w.cache .authProviderCallback payload.state = some (.authProviderCallback slf) ∧
        StepFor data w₁ w' step slf.reqRedirectUri slf.reqState := by
  obtain ⟨slf, w₁, hcheck, hrest⟩ := exec_bind_ok.mp h
  obtain ⟨provider, w₂, -, hrest⟩ := exec_bind_ok.mp hrest
  obtain ⟨claims, w₃, -, hrest⟩ := exec_bind_ok.mp hrest
  obtain ⟨⟨user, mfa⟩, w₄, -, hrest⟩ := exec_bind_ok.mp hrest
  obtain ⟨_, w₅, -, hrest⟩ := exec_bind_ok.mp hrest
  obtain ⟨_, w₆, -, hrest⟩ := exec_bind_ok.mp hrest
  split at hrest
  · cases (exec_ret.mp hrest).1
    exact absurd rfl hlink
  · exact ⟨slf, w₆, exec_checkCallback hcheck, .loginFinish hrest⟩

end Handlers

/-- **When the code and the state arrive**: the redirect URI must have no query and no fragment, and
the state must be read as it is. -/
theorem code_delivered_iff {data : AppState} {w w' : World} {step : AuthStep}
    {redirectUri : String} {state : Option String} (h : StepFor data w w' step redirectUri state) :
    ∃ code loc, NewCode w w' code ∧ Redirects w' loc step ∧
      (Delivers redirectUri state code loc ↔ Appendable redirectUri state) := by
  obtain ⟨code, hnew, hloc⟩ := h.location
  exact ⟨code, _, hnew, hloc, delivers_codeLocation_iff hnew.alnum redirectUri state⟩

/-- Alice, with a session, asks for another code. -/
def refreshCode (redirectUri : String) (state : Option String) : LoginRefreshRequest :=
  { (default : LoginRefreshRequest) with clientId := "app", redirectUri, state }

def AuthStep.isLoggedIn : AuthStep → Bool
  | loggedIn _ => true
  | _ => false

theorem exists_refreshed (redirectUri : String) (state : Option String) : ∃ step w',
    Exec sem (authorizeRefresh sampleState deviceSession
      { sampleClient with redirectUris := redirectUri } none (refreshCode redirectUri state))
      deviceWorld (.ok (.loggedIn step)) w' := by
  obtain ⟨r, w', hx, hr⟩ := Pool.exists_exec_of_choices Op.run (authorizeRefresh sampleState
    deviceSession { sampleClient with redirectUris := redirectUri } none
    (refreshCode redirectUri state))
    [.ok, .rand deviceCode, .time 100000, .ok] deviceWorld
    (fun r _ => r.toOption.any AuthStep.isLoggedIn) rfl
  rcases r with e | step | step | -
  · cases hr
  · exact ⟨step, w', hx⟩
  · cases hr
  · cases hr

theorem code_delivered_iff_plain : ∃ w' step code loc, NewCode deviceWorld w' code ∧
    Redirects w' loc step ∧ Delivers "https://app.example.com/cb" (some "xyz") code loc := by
  obtain ⟨step, w', hx⟩ := exists_refreshed "https://app.example.com/cb" (some "xyz")
  obtain ⟨code, loc, hcode, hloc, hiff⟩ := code_delivered_iff (.authorizeRefresh hx)
  refine ⟨w', _, code, loc, hcode, hloc, hiff.mpr ⟨by decide +kernel, by decide +kernel, ?_⟩⟩
  rintro s ⟨⟩
  exact verbatim_of_alnum (by decide)

open FormUrl in
/-- A redirect URI with a query of its own takes the code into its last parameter. -/
theorem query_swallows_code : ¬ ∀ (data : AppState) (session : Session) (client : Client)
    (origin : Option String) (reqData : LoginRefreshRequest) (w w' : World) (step : AuthStep),
    reUri reqData.redirectUri = true → (∀ s, reqData.state = some s → reUri s = true) →
    client.validateRedirectUri reqData.redirectUri = .ok () →
    Exec sem (authorizeRefresh data session client origin reqData) w (.ok step) w' →
    ∃ code loc, NewCode w w' code ∧ Redirects w' loc step ∧
      Delivers reqData.redirectUri reqData.state code loc := by
  intro hall
  have hquery : query (Text.asBytes "https://app.example.com/cb?x=1") = Text.asBytes "x=1" := by
    decide +kernel
  have hquestion : question ∈ Text.asBytes "https://app.example.com/cb?x=1" := by decide +kernel
  have hhash : hash ∉ Text.asBytes "https://app.example.com/cb?x=1" := by decide +kernel
  have hamp : amp ∉ Text.asBytes "x=1" := by decide
  have hparams : (params (Text.asBytes "x=1")).length = 1 := by decide
  obtain ⟨step, w', hx⟩ := exists_refreshed "https://app.example.com/cb?x=1" none
  obtain ⟨code, loc, -, hloc, hdelivers⟩ := hall _ _ _ _ _ _ _ _ (by decide +kernel)
    (fun _ h => by cases h) (by decide +kernel) hx
  obtain ⟨code', hcode, hloc'⟩ := StepFor.location (.authorizeRefresh hx)
  have hsame : loc = codeLocation "https://app.example.com/cb?x=1" code' none :=
    hloc.symm.trans hloc'
  -- the location has one parameter, as the redirect URI has
  have hc := verbatim_of_alnum hcode.alnum
  have hone : queryParams loc = [pair (Text.asBytes "x=1" ++ codePart (Text.asBytes code'))] := by
    have hclean := takeWhile_hash (hash_notMem_codePart hc) []
    rw [List.append_nil, List.takeWhile_nil, List.append_nil] at hclean
    have hmore : amp ∉ Text.asBytes "x=1" ++ codePart (Text.asBytes code') := fun h =>
      (List.mem_append.mp h).elim hamp (amp_notMem_codePart hc)
    rw [queryParams, hsame, codeLocation, asBytes_code, query_append hhash hquestion, hclean,
      hquery, params_single hmore (List.append_ne_nil_of_right_ne_nil _ (List.cons_ne_nil _ _))]
  have hlen := hdelivers.length_eq
  rw [hone, List.length_append] at hlen
  have htwo : (queryParams "https://app.example.com/cb?x=1").length = 1 := by
    rw [queryParams, hquery, hparams]
  change 1 = (queryParams "https://app.example.com/cb?x=1").length + 1 at hlen
  rw [htwo] at hlen
  cases hlen

end Rauthy
