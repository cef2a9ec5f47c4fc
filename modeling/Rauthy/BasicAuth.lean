/-
Rauthy/BasicAuth.lean

The two ways in which a client authenticates at the token endpoint: with its id and secret in the
body of the request, or in the header `Authorization: Basic`.

`try_get_client_id_secret` reads both, but not every grant goes by it: `client_credentials`
wants a secret in the body before it looks at the header, and the device grant looks at the body
only.  Moreover the header is split at its first colon, and a client id can have one.

Main result: `basic_header_iff`, the requests for which both ways come to the same.
-/
import Rauthy.Auth

namespace Rauthy

open Prog Pool

/-! ### The two requests -/

/-- The request with the header `Authorization: Basic`. -/
def HttpRequest.withBasic (req : HttpRequest) (b64 : String) : HttpRequest :=
  { req with authorization := some ("Basic " ++ b64) }

def HttpRequest.withoutAuth (req : HttpRequest) : HttpRequest := { req with authorization := none }

/-- The request with the credentials in its body. -/
def TokenRequest.withCredentials (r : TokenRequest) (id secret : String) : TokenRequest :=
  { r with clientId := some id, clientSecret := some secret }

/-- Whatever the environment does, both come to the same. -/
def SameOutcome {α : Type} (p q : M ErrorResponse α) : Prop :=
  ∀ cs w, runWith Op.run p cs w = runWith Op.run q cs w

/-- There is an environment in which both end, with different answers. -/
def Differ {α : Type} (p q : M ErrorResponse α) : Prop :=
  ∃ cs w x y, runWith Op.run p cs w = some x ∧ runWith Op.run q cs w = some y ∧ x.1 ≠ y.1

/-- There is an environment in which both end with different errors. -/
def ErrorsDiffer {α : Type} (p q : M ErrorResponse α) : Prop :=
  ∃ cs w e₁ w₁ e₂ w₂, runWith Op.run p cs w = some (.error e₁, w₁) ∧
    runWith Op.run q cs w = some (.error e₂, w₂) ∧ e₁ ≠ e₂

section Outcomes

variable {α β : Type} {p q : M ErrorResponse α} {f : α → M ErrorResponse β} {cs : List Choice}
  {w w' : World} {e : Fault ErrorResponse}

theorem Differ.not_same (h : Differ p q) : ¬ SameOutcome p q := by
  intro hsame
  obtain ⟨cs, w, x, y, hx, hy, hne⟩ := h
  rw [hsame cs w, hy] at hx
  exact hne (congrArg Prod.fst (Option.some.inj hx)).symm

theorem runWith_bind_error (h : runWith Op.run p cs w = some (.error e, w')) :
    runWith Op.run (p >>= f) cs w = some (.error e, w') := by
  induction p generalizing cs w with
  | ret a => cases h
  | fail e' =>
      cases h
      rfl
  | call o k ih =>
      cases cs with
      | nil => cases h
      | cons c cs =>
          obtain ⟨⟨x, w₁⟩, hrun, hrest⟩ := Option.bind_eq_some_iff.mp h
          show (Op.run c o w).bind _ = _
          rw [hrun]
          exact ih x hrest

theorem runWith_mapErr_error {g : ErrorResponse → ErrorResponse} {e : ErrorResponse}
    (h : runWith Op.run p cs w = some (.error (.err e), w')) :
    runWith Op.run (mapErr g p) cs w = some (.error (.err (g e)), w') := by
  unfold mapErr
  induction p generalizing cs w with
  | ret a => cases h
  | fail e' =>
      cases h
      rfl
  | call o k ih =>
      cases cs with
      | nil => cases h
      | cons c cs =>
          obtain ⟨⟨x, w₁⟩, hrun, hrest⟩ := Option.bind_eq_some_iff.mp h
          show (Op.run c o w).bind _ = _
          rw [hrun]
          exact ih x hrest

theorem ErrorsDiffer.of {w₁ w₂ : World} {e₁ e₂ : Fault ErrorResponse}
    (hp : runWith Op.run p cs w = some (.error e₁, w₁))
    (hq : runWith Op.run q cs w = some (.error e₂, w₂)) (hne : e₁ ≠ e₂) : ErrorsDiffer p q :=
  ⟨cs, w, e₁, w₁, e₂, w₂, hp, hq, hne⟩

theorem ErrorsDiffer.bind {g : α → M ErrorResponse β} (h : ErrorsDiffer p q) :
    ErrorsDiffer (p >>= f) (q >>= g) := by
  obtain ⟨cs, w, e₁, w₁, e₂, w₂, h₁, h₂, hne⟩ := h
  exact .of (runWith_bind_error h₁) (runWith_bind_error h₂) hne

theorem ErrorsDiffer.differ (h : ErrorsDiffer p q) : Differ p q := by
  obtain ⟨cs, w, e₁, w₁, e₂, w₂, h₁, h₂, hne⟩ := h
  exact ⟨cs, w, _, _, h₁, h₂, fun he => hne (Except.error.inj he)⟩

end Outcomes

/-! ### Reading the credentials -/

section Read

variable {data : AppState} {req : HttpRequest} {r : TokenRequest} {b64 id secret : String}

theorem splitOnce_basic (b64 : String) :
    Text.splitOnce ("Basic " ++ b64) " " = some ("Basic", b64) := by
  have hlist : ("Basic " ++ b64).toList = "Basic".toList ++ ' ' :: b64.toList := by
    rw [String.toList_append]
    rfl
  rw [Text.splitOnce, hlist, show " ".toList = [' '] from rfl,
    Text.splitOnceList_char (by decide), Option.map_some, String.ofList_toList,
    String.ofList_toList]

theorem tryGet_basic (hdecode : data.decodeAuthHeader b64 = .ok (id ++ ":" ++ secret))
    (hcolon : ':' ∉ id.toList) :
    r.tryGetClientIdSecret data (req.withBasic b64) = .ok (id, some secret) := by
  have hlist : (id ++ ":" ++ secret).toList = id.toList ++ ':' :: secret.toList := by
    rw [String.toList_append, String.toList_append, List.append_assoc]
    rfl
  have hsplit : Text.splitOnce (id ++ ":" ++ secret) ":" = some (id, secret) := by
    rw [Text.splitOnce, hlist, show ":".toList = [':'] from rfl, Text.splitOnceList_char hcolon,
      Option.map_some, String.ofList_toList, String.ofList_toList]
  simp only [TokenRequest.tryGetClientIdSecret, HttpRequest.withBasic, splitOnce_basic,
    Option.getD_some, hdecode, Bind.bind, Except.bind, hsplit]

/-- An id with a colon is not what the header is read as. -/
theorem tryGet_colon (hdecode : data.decodeAuthHeader b64 = .ok (id ++ ":" ++ secret))
    (hcolon : ':' ∈ id.toList) : ∃ id' secret', id' ≠ id ∧
      r.tryGetClientIdSecret data (req.withBasic b64) = .ok (id', some secret') := by
  obtain ⟨before, after, hid, hfirst⟩ := List.eq_append_cons_of_mem hcolon
  have hlist : (id ++ ":" ++ secret).toList =
      before ++ ':' :: (after ++ ':' :: secret.toList) := by
    rw [String.toList_append, String.toList_append, hid]
    simp
  have hsplit : Text.splitOnce (id ++ ":" ++ secret) ":" =
      some (String.ofList before, String.ofList (after ++ ':' :: secret.toList)) := by
    rw [Text.splitOnce, hlist, show ":".toList = [':'] from rfl, Text.splitOnceList_char hfirst]
    rfl
  refine ⟨String.ofList before, String.ofList (after ++ ':' :: secret.toList), ?_, ?_⟩
  · intro he
    rw [← he, String.toList_ofList] at hcolon
    exact hfirst hcolon
  · simp only [TokenRequest.tryGetClientIdSecret, HttpRequest.withBasic, splitOnce_basic,
      Option.getD_some, hdecode, Bind.bind, Except.bind, hsplit]

theorem tryGet_body : (r.withCredentials id secret).tryGetClientIdSecret data req.withoutAuth =
    .ok (id, some secret) := rfl

end Read

/-! ### Clients that are found, and others that are not -/

/-- A client that is in both caches, and nothing else. -/
def cachedWorld (id : String) (c : Client) : World where
  clock := 0
  issued := []
  db _ := []
  cache n k :=
    if n = .c12hr ∧ k = Client.getCacheEntry id ∨ n = .ephemeralClients ∧ k = id then
      some (.client c)
    else none

/-- A client without a secret and without any flow. -/
def idleClient : Client := { sampleClient with flowsEnabled := "" }

theorem exists_ne_error (e : ErrorResponse) : ∃ e' : ErrorResponse, e' ≠ e := by
  by_cases h : e.error = .internal
  · exact ⟨⟨.badRequest, ""⟩, fun he => by rw [← he] at h; cases h⟩
  · exact ⟨⟨.internal, ""⟩, fun he => h (by rw [← he])⟩

section Find

variable {data : AppState} {req : HttpRequest} {r : TokenRequest} {b64 id id' secret : String}
  {β : Type} {f : Client → M ErrorResponse β} {c : Client} {e : ErrorResponse} {cs : List Choice}
  {f' : Client → M ErrorResponse β}

theorem find_hit : runWith Op.run (Client.find id >>= f) (.ok :: cs) (cachedWorld id c) =
    runWith Op.run (f c) cs (cachedWorld id c) := by
  have hhit : (cachedWorld id c).cache .c12hr (Client.getCacheEntry id) = some (.client c) :=
    if_pos (.inl ⟨rfl, rfl⟩)
  show (Op.run .ok (.cacheGet .c12hr (Client.getCacheEntry id)) (cachedWorld id c)).bind _ = _
  simp only [Op.run, hhit]
  rfl

theorem find_miss (hne : id' ≠ id) :
    runWith Op.run (Client.find id' >>= f) (.ok :: .fail e false :: cs) (cachedWorld id c) =
      some (.error (.err e), cachedWorld id c) := by
  have hmiss : (cachedWorld id c).cache .c12hr (Client.getCacheEntry id') = none := by
    refine if_neg ?_
    rintro (⟨-, hkey⟩ | ⟨hname, -⟩)
    · exact hne (Client.getCacheEntry_inj.mp hkey)
    · cases hname
  show (Op.run .ok (.cacheGet .c12hr (Client.getCacheEntry id')) (cachedWorld id c)).bind _ = _
  simp only [Op.run, hmiss]
  rfl

theorem findMaybeEphemeral_hit :
    runWith Op.run (Client.findMaybeEphemeral data id >>= f) (.ok :: cs) (cachedWorld id c) =
      runWith Op.run (f c) cs (cachedWorld id c) := by
  unfold Client.findMaybeEphemeral
  split
  · exact find_hit
  · have hhit : (cachedWorld id c).cache .ephemeralClients id = some (.client c) :=
      if_pos (.inr ⟨rfl, rfl⟩)
    show (Op.run .ok (.cacheGet .ephemeralClients id) (cachedWorld id c)).bind _ = _
    simp only [Op.run, hhit]
    rfl

theorem findMaybeEphemeral_miss (hne : id' ≠ id) :
    runWith Op.run (Client.findMaybeEphemeral data id' >>= f) (.ok :: .fail e false :: cs)
      (cachedWorld id c) = some (.error (.err e), cachedWorld id c) := by
  unfold Client.findMaybeEphemeral
  split
  · exact find_miss hne
  · have hmiss : (cachedWorld id c).cache .ephemeralClients id' = none := by
      refine if_neg ?_
      rintro (⟨hname, -⟩ | ⟨-, hkey⟩)
      · cases hname
      · exact hne hkey
    show (Op.run .ok (.cacheGet .ephemeralClients id') (cachedWorld id c)).bind _ = _
    simp only [Op.run, hmiss]
    rfl

/-- A grant that looks for another client than it should, which is not there. -/
theorem find_differ (hne : id' ≠ id) (hidle : ∃ e, f idleClient = fail (.err e)) :
    ErrorsDiffer (Client.find id' >>= f') (Client.find id >>= f) := by
  obtain ⟨e, he⟩ := hidle
  obtain ⟨e', hother⟩ := exists_ne_error e
  have hhit : runWith Op.run (Client.find id >>= f) [.ok, .fail e' false]
      (cachedWorld id idleClient) = some (.error (.err e), cachedWorld id idleClient) := by
    rw [find_hit, he]
    rfl
  exact .of (find_miss hne) hhit fun h => hother (Fault.err.inj h)

theorem findMaybeEphemeral_differ (hne : id' ≠ id) (hidle : ∃ e, f idleClient = fail (.err e)) :
    ErrorsDiffer (Client.findMaybeEphemeral data id' >>= f')
      (Client.findMaybeEphemeral data id >>= f) := by
  obtain ⟨e, he⟩ := hidle
  obtain ⟨e', hother⟩ := exists_ne_error e
  have hhit : runWith Op.run (Client.findMaybeEphemeral data id >>= f) [.ok, .fail e' false]
      (cachedWorld id idleClient) = some (.error (.err e), cachedWorld id idleClient) := by
    rw [findMaybeEphemeral_hit, he]
    rfl
  exact .of (findMaybeEphemeral_miss hne) hhit fun h => hother (Fault.err.inj h)

end Find

/-! ### The grants -/

/-- The condition of the grants that go by `try_get_client_id_secret`: the id has no colon. -/
def NoColon (id : String) : Prop := ':' ∉ id.toList

/-- When the header, with what else the body has, is as good as the credentials in the body. -/
def TokenRequest.SameByHeader (data : AppState) (r : TokenRequest) (id secret : String) : Prop :=
  if r.grantType = grantTypeDeviceCodeName then
    ∀ code, r.deviceCode = some code →
      (Text.sliceTo code data.deviceGrantUserCodeLength).isSome = true →
      r.clientId = some id ∧ r.clientSecret = some secret
  else if r.grantType = "authorization_code" then r.code.isSome = true → NoColon id
  else if r.grantType = "client_credentials" then r.clientSecret.isSome = true ∧ NoColon id
  else if r.grantType = "password" then
    r.username.isSome = true → r.password.isSome = true → NoColon id
  else if r.grantType = "refresh_token" then r.refreshToken.isSome = true → NoColon id
  else True

section Grants

variable {data : AppState} {req : HttpRequest} {r : TokenRequest} {b64 id secret : String}
  {deviceCode key : String}

/-- The checks of an idle client end with an error, without any operation. -/
theorem idle_fails {β : Type} {sec : Option String} {flow missing : String} (hflow : flow ≠ "")
    (k : Option String → M ErrorResponse β) : ∃ e,
    (do
      let o ← answer (idleClient.validateOrigin data req)
      checkSecret data idleClient sec missing
      answer (idleClient.validateFlow flow)
      k o) = fail (.err e) := by
  rcases idleClient.validateOrigin data req with e | o
  · exact ⟨e, rfl⟩
  · have hnot : ¬ Text.contains idleClient.flowsEnabled flow = true := by
      rw [Text.contains_iff, show idleClient.flowsEnabled.toList = [] from rfl, List.infix_nil]
      exact fun he => hflow (String.ext he)
    have hfail : idleClient.validateFlow flow =
        .error ⟨.badRequest, "'" ++ flow ++ "' flow is not allowed for this client"⟩ :=
      if_pos (.inr hnot)
    refine ⟨⟨.badRequest, "'" ++ flow ++ "' flow is not allowed for this client"⟩, ?_⟩
    show (answer (idleClient.validateFlow flow) >>= fun _ => k o) = _
    rw [hfail]
    rfl

/-! `authorization_code` -/

theorem grantTypeCode_same (hdecode : data.decodeAuthHeader b64 = .ok (id ++ ":" ++ secret))
    (h : r.code.isSome = true → NoColon id) : grantTypeCode data (req.withBasic b64) r =
    grantTypeCode data req.withoutAuth (r.withCredentials id secret) := by
  unfold grantTypeCode
  rw [tryGet_body, show (r.withCredentials id secret).code = r.code from rfl]
  rcases hcode : r.code with - | code
  · rfl
  · rw [tryGet_basic hdecode (h (by rw [hcode]; rfl))]
    rfl

theorem grantTypeCode_differ (hdecode : data.decodeAuthHeader b64 = .ok (id ++ ":" ++ secret))
    (hcode : r.code.isSome = true) (hcolon : ':' ∈ id.toList) :
    ErrorsDiffer (grantTypeCode data (req.withBasic b64) r)
      (grantTypeCode data req.withoutAuth (r.withCredentials id secret)) := by
  obtain ⟨id', secret', hne, hread⟩ : ∃ id' secret', id' ≠ id ∧
      r.tryGetClientIdSecret data (req.withBasic b64) = .ok (id', some secret') :=
    tryGet_colon hdecode hcolon
  obtain ⟨code, hcode⟩ := Option.isSome_iff_exists.mp hcode
  -- the first access to a cache fails
  have hclient : ∀ req' x sec, runWith Op.run (codeClient data req' x sec) [.fail default false]
      (cachedWorld id idleClient) =
      some (.error (err .notFound ("Client '" ++ x ++ "' not found")), cachedWorld id idleClient) := by
    intro req' x sec
    have hfind : runWith Op.run (Client.findMaybeEphemeral data x) [.fail default false]
        (cachedWorld id idleClient) = some (.error (.err default), cachedWorld id idleClient) := by
      unfold Client.findMaybeEphemeral
      split <;> rfl
    exact runWith_bind_error (runWith_mapErr_error hfind)
  have hheader : runWith Op.run (grantTypeCode data (req.withBasic b64) r) [.fail default false]
      (cachedWorld id idleClient) = some (.error (err .notFound ("Client '" ++ id' ++ "' not found")),
        cachedWorld id idleClient) := by
    unfold grantTypeCode
    rw [hcode, hread]
    show runWith Op.run (codeClient data (req.withBasic b64) id' (some secret') >>= _) _ _ = _
    exact runWith_bind_error (hclient _ id' (some secret'))
  have hbody : runWith Op.run (grantTypeCode data req.withoutAuth (r.withCredentials id secret))
      [.fail default false] (cachedWorld id idleClient) =
      some (.error (err .notFound ("Client '" ++ id ++ "' not found")),
        cachedWorld id idleClient) := by
    unfold grantTypeCode
    rw [tryGet_body, show (r.withCredentials id secret).code = r.code from rfl, hcode]
    show runWith Op.run (codeClient data req.withoutAuth id (some secret) >>= _) _ _ = _
    exact runWith_bind_error (hclient _ id (some secret))
  refine .of hheader hbody fun he => ?_
  have hmsg : "Client '" ++ id' ++ "' not found" = "Client '" ++ id ++ "' not found" :=
    congrArg ErrorResponse.message (Fault.err.inj he)
  rw [String.append_left_inj, String.append_right_inj] at hmsg
  exact hne hmsg

/-! `client_credentials` -/

theorem grantTypeCredentials_same
    (hdecode : data.decodeAuthHeader b64 = .ok (id ++ ":" ++ secret))
    (hsecret : r.clientSecret.isSome = true) (hcolon : NoColon id) :
    grantTypeCredentials data (req.withBasic b64) r =
      grantTypeCredentials data req.withoutAuth (r.withCredentials id secret) := by
  have hsome : r.clientSecret.isNone = false := by
    rw [Option.isNone_eq_false_iff]
    exact hsecret
  unfold grantTypeCredentials
  rw [tryGet_body, tryGet_basic hdecode hcolon, hsome]
  rfl

theorem grantTypeCredentials_missing (hnone : ¬ r.clientSecret.isSome = true) :
    ErrorsDiffer (grantTypeCredentials data (req.withBasic b64) r)
      (grantTypeCredentials data req.withoutAuth (r.withCredentials id secret)) := by
  have hmissing : r.clientSecret.isNone = true := by
    rw [Option.isNone_iff_eq_none]
    exact Option.not_isSome_iff_eq_none.mp hnone
  have hheader : runWith Op.run (grantTypeCredentials data (req.withBasic b64) r)
      [.fail ⟨.internal, ""⟩ false] (cachedWorld id idleClient) =
      some (.error (err .badRequest "'client_secret' is missing"), cachedWorld id idleClient) := by
    unfold grantTypeCredentials
    rw [hmissing]
    rfl
  have hbody : runWith Op.run
      (grantTypeCredentials data req.withoutAuth (r.withCredentials id secret))
      [.fail ⟨.internal, ""⟩ false] (cachedWorld id idleClient) =
      some (.error (.err ⟨.internal, ""⟩), cachedWorld id idleClient) := rfl
  exact .of hheader hbody fun he => by cases he

theorem grantTypeCredentials_differ
    (hdecode : data.decodeAuthHeader b64 = .ok (id ++ ":" ++ secret))
    (hsecret : r.clientSecret.isSome = true) (hcolon : ':' ∈ id.toList) :
    ErrorsDiffer (grantTypeCredentials data (req.withBasic b64) r)
      (grantTypeCredentials data req.withoutAuth (r.withCredentials id secret)) := by
  obtain ⟨id', secret', hne, hread⟩ : ∃ id' secret', id' ≠ id ∧
      r.tryGetClientIdSecret data (req.withBasic b64) = .ok (id', some secret') :=
    tryGet_colon hdecode hcolon
  have hsome : r.clientSecret.isNone = false := by
    rw [Option.isNone_eq_false_iff]
    exact hsecret
  unfold grantTypeCredentials
  rw [tryGet_body, hread, hsome]
  exact find_differ hne ⟨_, rfl⟩

/-! `password` -/

theorem grantTypePassword_same (hdecode : data.decodeAuthHeader b64 = .ok (id ++ ":" ++ secret))
    (h : r.username.isSome = true → r.password.isSome = true → NoColon id) :
    grantTypePassword data (req.withBasic b64) r =
      grantTypePassword data req.withoutAuth (r.withCredentials id secret) := by
  unfold grantTypePassword
  rw [tryGet_body, show (r.withCredentials id secret).username = r.username from rfl,
    show (r.withCredentials id secret).password = r.password from rfl]
  rcases husername : r.username with - | username
  · rfl
  rcases hpassword : r.password with - | password
  · rfl
  rw [tryGet_basic hdecode (h (by rw [husername]; rfl) (by rw [hpassword]; rfl))]
  rfl

theorem grantTypePassword_differ
    (hdecode : data.decodeAuthHeader b64 = .ok (id ++ ":" ++ secret))
    (husername : r.username.isSome = true) (hpassword : r.password.isSome = true)
    (hcolon : ':' ∈ id.toList) :
    ErrorsDiffer (grantTypePassword data (req.withBasic b64) r)
      (grantTypePassword data req.withoutAuth (r.withCredentials id secret)) := by
  obtain ⟨id', secret', hne, hread⟩ : ∃ id' secret', id' ≠ id ∧
      r.tryGetClientIdSecret data (req.withBasic b64) = .ok (id', some secret') :=
    tryGet_colon hdecode hcolon
  obtain ⟨username, husername⟩ := Option.isSome_iff_exists.mp husername
  obtain ⟨password, hpassword⟩ := Option.isSome_iff_exists.mp hpassword
  unfold grantTypePassword
  rw [tryGet_body, hread, show (r.withCredentials id secret).username = r.username from rfl,
    show (r.withCredentials id secret).password = r.password from rfl, husername, hpassword]
  show ErrorsDiffer (passwordClient data (req.withBasic b64) id' (some secret') >>= _)
    (passwordClient data req.withoutAuth id (some secret) >>= _)
  exact (find_differ hne (idle_fails (by decide) _)).bind

/-! `refresh_token` -/

theorem grantTypeRefresh_same (hdecode : data.decodeAuthHeader b64 = .ok (id ++ ":" ++ secret))
    (h : r.refreshToken.isSome = true → NoColon id) :
    grantTypeRefresh data (req.withBasic b64) r =
      grantTypeRefresh data req.withoutAuth (r.withCredentials id secret) := by
  unfold grantTypeRefresh
  rw [tryGet_body, show (r.withCredentials id secret).refreshToken = r.refreshToken from rfl]
  rcases htoken : r.refreshToken with - | token
  · rfl
  · rw [tryGet_basic hdecode (h (by rw [htoken]; rfl))]
    rfl

theorem grantTypeRefresh_differ
    (hdecode : data.decodeAuthHeader b64 = .ok (id ++ ":" ++ secret))
    (htoken : r.refreshToken.isSome = true) (hcolon : ':' ∈ id.toList) :
    ErrorsDiffer (grantTypeRefresh data (req.withBasic b64) r)
      (grantTypeRefresh data req.withoutAuth (r.withCredentials id secret)) := by
  obtain ⟨id', secret', hne, hread⟩ : ∃ id' secret', id' ≠ id ∧
      r.tryGetClientIdSecret data (req.withBasic b64) = .ok (id', some secret') :=
    tryGet_colon hdecode hcolon
  obtain ⟨token, htoken⟩ := Option.isSome_iff_exists.mp htoken
  unfold grantTypeRefresh
  rw [tryGet_body, hread, show (r.withCredentials id secret).refreshToken = r.refreshToken from rfl,
    htoken]
  exact findMaybeEphemeral_differ hne (idle_fails (by decide) _)

/-! The device grant -/

theorem grantTypeDeviceCode_same {ip : Option String}
    (h : ∀ code, r.deviceCode = some code →
      (Text.sliceTo code data.deviceGrantUserCodeLength).isSome = true →
      r.clientId = some id ∧ r.clientSecret = some secret) :
    grantTypeDeviceCode data ip r = grantTypeDeviceCode data ip (r.withCredentials id secret) := by
  unfold grantTypeDeviceCode
  rw [show (r.withCredentials id secret).deviceCode = r.deviceCode from rfl]
  rcases hcode : r.deviceCode with - | code
  · rfl
  rcases hkey : Text.sliceTo code data.deviceGrantUserCodeLength with - | key
  · -- both panic
    simp only [DeviceAuthCode.findByDeviceCode, Rauthy.sliceTo, hkey]
    rfl
  · obtain ⟨hid, hsecret⟩ := h code hcode (by rw [hkey]; rfl)
    rw [hid, hsecret]
    rfl

/-- A code of the client that nobody has verified. -/
def pendingCode (id secret deviceCode : String) : DeviceAuthCode where
  clientId := id
  deviceCode := deviceCode
  verifiedBy := none
  exp := 0
  lastPoll := 0
  scopes := none
  clientSecret := some secret
  warnings := 0

def pendingWorld (key : String) (code : DeviceAuthCode) : World where
  clock := 0
  issued := []
  db _ := []
  cache n k := if n = .deviceCodes ∧ k = key then some (.deviceAuthCode code) else none

theorem findByDeviceCode_hit {α : Type} {code : DeviceAuthCode}
    {f : Except ErrorResponse (Option DeviceAuthCode) → M ErrorResponse α} {cs : List Choice}
    (hkey : Text.sliceTo deviceCode data.deviceGrantUserCodeLength = some key)
    (hexp : code.exp = 0) :
    runWith Op.run (attempt (DeviceAuthCode.findByDeviceCode data deviceCode) >>= f)
      (.ok :: .time 0 :: cs) (pendingWorld key code) =
    runWith Op.run (f (.ok (some code))) cs (pendingWorld key code) := by
  have hhit : (pendingWorld key code).cache .deviceCodes key = some (.deviceAuthCode code) :=
    if_pos ⟨rfl, rfl⟩
  simp only [DeviceAuthCode.findByDeviceCode, Rauthy.sliceTo, hkey]
  show (Op.run .ok (.cacheGet .deviceCodes key) (pendingWorld key code)).bind _ = _
  simp only [Op.run, hhit]
  have hlive : ¬ code.exp < 0 := by
    rw [hexp]
    decide
  show runWith Op.run ((attempt (if code.exp < 0 then _ else ret (some code)) : M _ _) >>= f) cs
    (pendingWorld key code) = _
  rw [if_neg hlive]
  rfl

theorem checkPoll_pending (data : AppState) (id secret deviceCode : String) (ms : Int) : ∃ n e msg,
    checkPoll data (pendingCode id secret deviceCode) ms =
      ret ({ pendingCode id secret deviceCode with warnings := n }, e, msg) ∧
    e ≠ .invalidRequest ∧ e ≠ .unauthorizedClient := by
  unfold checkPoll
  split
  · exact ⟨1, .slowDown, "must respect the poll interval", rfl, by decide, by decide⟩
  · exact ⟨0, .authorizationPending, "", rfl, by decide, by decide⟩

theorem grantTypeDeviceCode_pending (ip : Option String) (hcode : r.deviceCode = some deviceCode)
    (hkey : Text.sliceTo deviceCode data.deviceGrantUserCodeLength = some key) : ∃ e msg w',
    runWith Op.run (grantTypeDeviceCode data ip (r.withCredentials id secret))
      [.ok, .time 0, .time 0, .ok] (pendingWorld key (pendingCode id secret deviceCode)) =
      some (.ok (.error 400 e msg), w') ∧ e ≠ .invalidRequest ∧ e ≠ .unauthorizedClient := by
  obtain ⟨n, e, msg, hpoll, hne⟩ := checkPoll_pending data id secret deviceCode 0
  refine ⟨e, msg, (pendingWorld key (pendingCode id secret deviceCode)).put .deviceCodes key
    (.deviceAuthCode { pendingCode id secret deviceCode with warnings := n }), ?_, hne⟩
  unfold grantTypeDeviceCode
  rw [show (r.withCredentials id secret).deviceCode = r.deviceCode from rfl, hcode]
  show runWith Op.run (attempt (DeviceAuthCode.findByDeviceCode data deviceCode) >>= _)
    (.ok :: .time 0 :: _) _ = _
  rw [findByDeviceCode_hit hkey rfl]
  have hid : ¬ some (pendingCode id secret deviceCode).clientId ≠
      (r.withCredentials id secret).clientId := not_not.mpr rfl
  have hdevice : ¬ (pendingCode id secret deviceCode).deviceCode ≠ deviceCode := not_not.mpr rfl
  have hsecret : ¬ (pendingCode id secret deviceCode).clientSecret ≠
      (r.withCredentials id secret).clientSecret := not_not.mpr rfl
  simp only [if_neg hid, if_neg hdevice, if_neg hsecret]
  show runWith Op.run (checkPoll data (pendingCode id secret deviceCode) 0 >>= _) [.ok] _ = _
  rw [hpoll]
  show runWith Op.run (ignoreErr (DeviceAuthCode.save data _) >>= _) [.ok] _ = _
  simp only [DeviceAuthCode.save, DeviceAuthCode.userCode, Rauthy.sliceTo, pendingCode, hkey]
  rfl

/-- By header, the code is answered to be another client's. -/
theorem grantTypeDeviceCode_other (ip : Option String) (hcode : r.deviceCode = some deviceCode)
    (hkey : Text.sliceTo deviceCode data.deviceGrantUserCodeLength = some key)
    (hne : ¬ (r.clientId = some id ∧ r.clientSecret = some secret)) : ∃ e msg w',
    runWith Op.run (grantTypeDeviceCode data ip r)
      [.ok, .time 0, .time 0, .ok] (pendingWorld key (pendingCode id secret deviceCode)) =
      some (.ok (.error 400 e msg), w') ∧ (e = .invalidRequest ∨ e = .unauthorizedClient) := by
  have hdevice : ¬ (pendingCode id secret deviceCode).deviceCode ≠ deviceCode := not_not.mpr rfl
  by_cases hid : some (pendingCode id secret deviceCode).clientId ≠ r.clientId
  · refine ⟨.invalidRequest, "Invalid `client_id`",
      pendingWorld key (pendingCode id secret deviceCode), ?_, .inl rfl⟩
    unfold grantTypeDeviceCode
    rw [hcode]
    show runWith Op.run (attempt (DeviceAuthCode.findByDeviceCode data deviceCode) >>= _)
      (.ok :: .time 0 :: _) _ = _
    rw [findByDeviceCode_hit hkey rfl]
    simp only [if_pos hid]
    rfl
  · have hsecret : (pendingCode id secret deviceCode).clientSecret ≠ r.clientSecret :=
      fun he => hne ⟨(not_not.mp hid).symm, he.symm⟩
    refine ⟨.unauthorizedClient, "Invalid `client_secret`",
      pendingWorld key (pendingCode id secret deviceCode), ?_, .inr rfl⟩
    unfold grantTypeDeviceCode
    rw [hcode]
    show runWith Op.run (attempt (DeviceAuthCode.findByDeviceCode data deviceCode) >>= _)
      (.ok :: .time 0 :: _) _ = _
    rw [findByDeviceCode_hit hkey rfl]
    simp only [if_neg hid, if_neg hdevice, if_pos hsecret]
    rfl

theorem grantTypeDeviceCode_differ {ip : Option String} (hcode : r.deviceCode = some deviceCode)
    (hkey : Text.sliceTo deviceCode data.deviceGrantUserCodeLength = some key)
    (hne : ¬ (r.clientId = some id ∧ r.clientSecret = some secret)) :
    Differ (grantTypeDeviceCode data ip r)
      (grantTypeDeviceCode data ip (r.withCredentials id secret)) := by
  obtain ⟨e, msg, w₁, hheader, he⟩ := grantTypeDeviceCode_other ip hcode hkey hne
  obtain ⟨e', msg', w₂, hbody, hinvalid, hunauthorized⟩ : ∃ e msg w', runWith Op.run
      (grantTypeDeviceCode data ip (r.withCredentials id secret)) [.ok, .time 0, .time 0, .ok]
      (pendingWorld key (pendingCode id secret deviceCode)) = some (.ok (.error 400 e msg), w') ∧
      e ≠ .invalidRequest ∧ e ≠ .unauthorizedClient := grantTypeDeviceCode_pending ip hcode hkey
  refine ⟨_, _, _, _, hheader, hbody, fun hsame => ?_⟩
  have herr : e = e' := (DeviceAnswer.error.inj (Except.ok.inj hsame)).2.1
  rcases he with rfl | rfl
  · exact hinvalid herr.symm
  · exact hunauthorized herr.symm

end Grants

/-! ### The endpoint -/

/-- Both requests get the same answer, with the same tokens and headers. -/
structure SamePresentation (data : AppState) (req req' : HttpRequest) (r r' : TokenRequest) :
    Prop where
  answer : SameOutcome (postToken data req r) (postToken data req' r')
  tokens : SameOutcome (getTokenSet data req r) (getTokenSet data req' r')

section Endpoint

variable {data : AppState} {req : HttpRequest} {r : TokenRequest} {b64 id secret : String}

theorem getTokenSet_same (hdecode : data.decodeAuthHeader b64 = .ok (id ++ ":" ++ secret))
    (h : r.SameByHeader data id secret) : getTokenSet data (req.withBasic b64) r =
      getTokenSet data req.withoutAuth (r.withCredentials id secret) := by
  unfold TokenRequest.SameByHeader at h
  unfold getTokenSet
  rw [show (r.withCredentials id secret).grantType = r.grantType from rfl]
  split at h
  · next hdevice =>
      rw [hdevice]
      rfl
  split at h
  · next hgrant =>
      rw [if_pos hgrant, if_pos hgrant]
      exact grantTypeCode_same hdecode h
  split at h
  · next hcode hgrant =>
      rw [if_neg hcode, if_neg hcode, if_pos hgrant, if_pos hgrant]
      exact grantTypeCredentials_same hdecode h.1 h.2
  split at h
  · next hcode hcredentials hgrant =>
      rw [if_neg hcode, if_neg hcode, if_neg hcredentials, if_neg hcredentials, if_pos hgrant,
        if_pos hgrant]
      exact grantTypePassword_same hdecode h
  · next hcode hcredentials hpassword =>
      rw [if_neg hcode, if_neg hcode, if_neg hcredentials, if_neg hcredentials, if_neg hpassword,
        if_neg hpassword]
      split
      · next hgrant => exact grantTypeRefresh_same hdecode (by rwa [if_pos hgrant] at h)
      · rfl

theorem getTokenSet_differ (hdecode : data.decodeAuthHeader b64 = .ok (id ++ ":" ++ secret))
    (hdevice : r.grantType ≠ grantTypeDeviceCodeName) (h : ¬ r.SameByHeader data id secret) :
    ErrorsDiffer (getTokenSet data (req.withBasic b64) r)
      (getTokenSet data req.withoutAuth (r.withCredentials id secret)) := by
  unfold TokenRequest.SameByHeader at h
  rw [if_neg hdevice] at h
  unfold getTokenSet
  rw [show (r.withCredentials id secret).grantType = r.grantType from rfl]
  split at h
  · next hgrant =>
      rw [if_pos hgrant, if_pos hgrant]
      obtain ⟨hcode, hcolon⟩ := Classical.not_imp.mp h
      exact grantTypeCode_differ hdecode hcode (not_not.mp hcolon)
  split at h
  · next hcode hgrant =>
      rw [if_neg hcode, if_neg hcode, if_pos hgrant, if_pos hgrant]
      by_cases hsecret : r.clientSecret.isSome = true
      · exact grantTypeCredentials_differ hdecode hsecret (not_not.mp fun hc => h ⟨hsecret, hc⟩)
      · exact grantTypeCredentials_missing hsecret
  split at h
  · next hcode hcredentials hgrant =>
      rw [if_neg hcode, if_neg hcode, if_neg hcredentials, if_neg hcredentials, if_pos hgrant,
        if_pos hgrant]
      obtain ⟨husername, h⟩ := Classical.not_imp.mp h
      obtain ⟨hpassword, hcolon⟩ := Classical.not_imp.mp h
      exact grantTypePassword_differ hdecode husername hpassword (not_not.mp hcolon)
  · next hcode hcredentials hpassword =>
      rw [if_neg hcode, if_neg hcode, if_neg hcredentials, if_neg hcredentials, if_neg hpassword,
        if_neg hpassword]
      split at h
      · next hgrant =>
          rw [if_pos hgrant, if_pos hgrant]
          obtain ⟨htoken, hcolon⟩ := Classical.not_imp.mp h
          exact grantTypeRefresh_differ hdecode htoken (not_not.mp hcolon)
      · exact absurd trivial h

/-- **When the header is as good as the body.** -/
theorem basic_header_iff (hdecode : data.decodeAuthHeader b64 = .ok (id ++ ":" ++ secret)) :
    SamePresentation data (req.withBasic b64) req.withoutAuth r (r.withCredentials id secret) ↔
      r.SameByHeader data id secret := by
  have hgrant : (r.withCredentials id secret).grantType = r.grantType := rfl
  constructor
  · intro hsame
    by_contra h
    refine Differ.not_same ?_ hsame.answer
    unfold postToken
    rw [hgrant]
    by_cases hdevice : r.grantType = grantTypeDeviceCodeName
    · rw [if_pos hdevice, if_pos hdevice]
      unfold TokenRequest.SameByHeader at h
      rw [if_pos hdevice] at h
      obtain ⟨code, h⟩ := Classical.not_forall.mp h
      obtain ⟨hcode, h⟩ := Classical.not_imp.mp h
      obtain ⟨hkey, hne⟩ := Classical.not_imp.mp h
      obtain ⟨key, hkey⟩ := Option.isSome_iff_exists.mp hkey
      exact grantTypeDeviceCode_differ hcode hkey hne
    · rw [if_neg hdevice, if_neg hdevice]
      exact (getTokenSet_differ hdecode hdevice h).bind.differ
  · intro h
    have htokens : getTokenSet data (req.withBasic b64) r =
        getTokenSet data req.withoutAuth (r.withCredentials id secret) := getTokenSet_same hdecode h
    refine ⟨fun cs w => ?_, fun cs w => by rw [htokens]⟩
    unfold postToken
    rw [htokens, hgrant]
    split
    · next hdevice =>
        unfold TokenRequest.SameByHeader at h
        rw [if_pos hdevice] at h
        show runWith Op.run (grantTypeDeviceCode data req.realIp r) cs w =
          runWith Op.run (grantTypeDeviceCode data req.realIp (r.withCredentials id secret)) cs w
        rw [grantTypeDeviceCode_same h]
    · rfl

end Endpoint

def sampleTokenRequest : TokenRequest where
  grantType := "client_credentials"
  code := none
  redirectUri := none
  clientId := none
  clientSecret := none
  codeVerifier := none
  deviceCode := none
  username := none
  password := none
  refreshToken := none

def codeTokenRequest : TokenRequest :=
  { sampleTokenRequest with grantType := "authorization_code", code := some "code" }

theorem basic_header_iff_code :
    SamePresentation sampleState ((default : HttpRequest).withBasic "app:secret")
      (default : HttpRequest).withoutAuth codeTokenRequest
      (codeTokenRequest.withCredentials "app" "secret") := by
  have hcolon : NoColon "app" := by
    show ':' ∉ "app".toList
    decide
  have hsame : codeTokenRequest.SameByHeader sampleState "app" "secret" := by
    unfold TokenRequest.SameByHeader
    have hgrant : codeTokenRequest.grantType = "authorization_code" := rfl
    rw [if_neg (by decide), if_pos hgrant]
    exact fun _ => hcolon
  exact (basic_header_iff rfl).mpr hsame

/-- The header alone is refused for client credentials. -/
theorem basic_header_refused :
    ¬ ∀ (data : AppState) (req : HttpRequest) (r : TokenRequest) (b64 id secret : String),
      data.decodeAuthHeader b64 = .ok (id ++ ":" ++ secret) →
      SamePresentation data (req.withBasic b64) req.withoutAuth r (r.withCredentials id secret) := by
  intro hall
  have hsame := (hall sampleState default sampleTokenRequest "app:secret" "app" "secret"
    rfl).answer [.fail ⟨.internal, ""⟩ false] (cachedWorld "app" idleClient)
  have herr := congrArg (Option.map fun x => x.1) hsame
  have hmissing := Except.error.inj (Option.some.inj herr)
  cases hmissing

end Rauthy
