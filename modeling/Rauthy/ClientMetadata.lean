/-
Rauthy/ClientMetadata.lean

What clients that register themselves are told about their own metadata: the response to a
registration, to an update and to a later read.

The metadata goes into the columns of two tables and is read out of them again.  Addresses and
contacts are joined with commas, so a list that is empty or has a comma in an element comes back
as another one.  `DynamicClientResponse::build` fills `post_logout_redirect_uri` with the first
redirect URI instead of the one that is stored.

Main result: `dynamic_metadata_iff`, the requests whose metadata is reported as it was given.
-/
import Rauthy.ClientUpdates
import Rauthy.DynamicClients

namespace Rauthy

open Prog

/-! ### The requests that are admitted -/

/-- `[a-zA-Z0-9À-ÿ-\s]` -/
def clientNameChar (c : Char) : Bool :=
  isAlnum c || ('À' ≤ c && c ≤ 'ÿ') || c == '-' || Text.isWhitespace c

/-- `[a-zA-Z0-9\+.@/:]` -/
def contactChar (c : Char) : Bool := isAlnum c || "+.@/:".toList.contains c

/-- `RE_CLIENT_NAME` -/
def reClientName : String → Bool := matchesClass clientNameChar 2 (some 128)

/-- `RE_CONTACT` -/
def reContact : String → Bool := matchesClass contactChar 0 (some 48)

/-- `RE_GRANT_TYPES` -/
def reGrantTypes (s : String) : Bool :=
  ["authorization_code", "client_credentials", "urn:ietf:params:oauth:grant-type:device_code",
    "password", "refresh_token"].contains s

/-- `RE_TOKEN_ENDPOINT_AUTH_METHOD` -/
def reTokenEndpointAuthMethod (s : String) : Bool :=
  ["client_secret_post", "client_secret_basic", "none"].contains s

/-- `validate_vec_contact` -/
def validateVecContact (value : List String) : Bool := value.all reContact

/-- `validate_vec_grant_types` -/
def validateVecGrantTypes (value : List String) : Bool := !value.isEmpty && value.all reGrantTypes

/-- The checks of `DynamicClientRequest` -/
def DynamicClientRequest.validate (req : DynamicClientRequest) : Bool :=
  validateVecUri req.redirectUris && validateVecGrantTypes req.grantTypes &&
    req.clientName.all reClientName && req.clientUri.all reUri &&
    req.contacts.all validateVecContact &&
    req.tokenEndpointAuthMethod.all reTokenEndpointAuthMethod &&
    req.postLogoutRedirectUri.all reUri

/-! ### Reading and updating -/

namespace CacheVal

def clientDyn? : CacheVal → Option ClientDyn
  | clientDyn v => some v
  | _ => none

@[simp] theorem clientDyn?_eq_some {v : CacheVal} {d : ClientDyn} :
    v.clientDyn? = some d ↔ v = clientDyn d := by
  cases v <;> simp [clientDyn?]

end CacheVal

namespace ClientDyn

/-- `ClientDyn::find` -/
def find (id : String) : M ErrorResponse ClientDyn := do
  match ← cacheGet .c12hr (getCacheEntry id) CacheVal.clientDyn? with
  | some slf => return slf
  | none =>
      let slf ← fetchOne .clientsDyn fun d => d.id == id
      cachePut .c12hr (getCacheEntry slf.id) (.clientDyn slf)
      return slf

/-- `ClientDyn::validate_token` -/
def validateToken (data : AppState) (slf : ClientDyn) (bearer : String) :
    Except ErrorResponse Unit := do
  let token ← slf.registrationTokenPlain data
  if token ≠ bearer then .error ⟨.wwwAuthenticate "invalid_token", "Invalid registration_token"⟩
  else .ok ()

end ClientDyn

/-- `get_clients_dyn`, with the token of the header -/
def getClientsDyn (data : AppState) (bearer id : String) :
    M ErrorResponse DynamicClientResponse := do
  let clientDyn ← ClientDyn.find id
  answer (clientDyn.validateToken data bearer)
  let client ← Client.find id
  answer (DynamicClientResponse.build data client clientDyn false)

/-- `put_clients_dyn`, with the token of the header -/
def putClientsDyn (data : AppState) (bearer id : String) (req : DynamicClientRequest) :
    M ErrorResponse DynamicClientResponse := do
  let clientDyn ← ClientDyn.find id
  answer (clientDyn.validateToken data bearer)
  Client.updateDynamic data req clientDyn

/-! ### Metadata -/

/-- What a client registers.  Its algorithms and its method of authentication have defaults. -/
@[ext]
structure ClientMetadata where
  redirectUris : List String
  grantTypes : List String
  postLogoutRedirectUris : Option (List String)
  clientName : Option String
  clientUri : Option String
  contacts : Option (List String)
  idTokenSignedResponseAlg : String
  tokenEndpointAuthMethod : String
  tokenEndpointAuthSigningAlg : String
  deriving DecidableEq

/-- The method of authentication, with its default. -/
def DynamicClientRequest.authMethod (req : DynamicClientRequest) : String :=
  req.tokenEndpointAuthMethod.getD "client_secret_basic"

def DynamicClientRequest.requested (req : DynamicClientRequest) : ClientMetadata where
  redirectUris := req.redirectUris
  grantTypes := req.grantTypes
  postLogoutRedirectUris := req.postLogoutRedirectUri.map fun uri => [uri]
  clientName := req.clientName
  clientUri := req.clientUri
  contacts := req.contacts
  idTokenSignedResponseAlg := (req.idTokenSignedResponseAlg.getD .edDSA).asStr
  tokenEndpointAuthMethod := req.authMethod
  tokenEndpointAuthSigningAlg := (req.tokenEndpointAuthSigningAlg.getD .edDSA).asStr

/-- The metadata of the rows of a client, as their columns are read. -/
def Client.registered (c : Client) (d : ClientDyn) : ClientMetadata where
  redirectUris := c.getRedirectUris
  grantTypes := (Text.split ',' c.flowsEnabled).map Text.trim
  postLogoutRedirectUris := c.getPostLogoutUris
  clientName := c.name
  clientUri := c.clientUri
  contacts := c.contacts.map (Text.split ',')
  idTokenSignedResponseAlg := c.idTokenAlg
  tokenEndpointAuthMethod := d.tokenEndpointAuthMethod
  tokenEndpointAuthSigningAlg := c.accessTokenAlg

/-- What a response says about these rows. -/
def Client.reported (c : Client) (d : ClientDyn) : ClientMetadata :=
  { c.registered d with
    postLogoutRedirectUris := c.getRedirectUris.head?.map fun uri => [uri] }

def DynamicClientResponse.metadata (resp : DynamicClientResponse) : ClientMetadata where
  redirectUris := resp.redirectUris
  grantTypes := resp.grantTypes
  postLogoutRedirectUris := resp.postLogoutRedirectUri.map fun uri => [uri]
  clientName := resp.clientName
  clientUri := resp.clientUri
  contacts := resp.contacts
  idTokenSignedResponseAlg := resp.idTokenSignedResponseAlg
  tokenEndpointAuthMethod := resp.tokenEndpointAuthMethod
  tokenEndpointAuthSigningAlg := resp.tokenEndpointAuthSigningAlg

/-- The lists of the request survive the commas, and its address after a logout is the one that a
response gives. -/
structure DynamicClientRequest.Expressible (req : DynamicClientRequest) : Prop where
  nonempty : req.redirectUris ≠ []
  noComma : NoComma req.redirectUris
  contacts : req.contacts ≠ some []
  logout : req.postLogoutRedirectUri = req.redirectUris.head?

section Columns

variable {req : DynamicClientRequest} {c : Client} {d : ClientDyn} {s : String}

theorem noComma_contact (h : reContact s = true) : ',' ∉ s.toList := by
  intro hmem
  have hcomma := mem_of_matchesClass h ',' hmem
  exact absurd hcomma (by decide)

theorem word_of_reGrantTypes (h : reGrantTypes s = true) : ',' ∉ s.toList ∧ NoSpace s := by
  have hmem : s ∈ ["authorization_code", "client_credentials",
      "urn:ietf:params:oauth:grant-type:device_code", "password", "refresh_token"] :=
    List.contains_iff_mem.mp h
  simp only [List.mem_cons, List.not_mem_nil, or_false] at hmem
  rcases hmem with rfl | rfl | rfl | rfl | rfl
  all_goals exact ⟨by decide, by decide⟩

theorem read_grantTypes (h : validateVecGrantTypes req.grantTypes = true) :
    (Text.split ',' (Text.join "," req.grantTypes)).map Text.trim = req.grantTypes := by
  rw [validateVecGrantTypes, Bool.and_eq_true, Bool.not_eq_true', List.isEmpty_eq_false_iff] at h
  have hwords : ∀ s ∈ req.grantTypes, reGrantTypes s = true := List.all_eq_true.mp h.2
  exact read_join h.1 (fun s hs => (word_of_reGrantTypes (hwords s hs)).1)
    fun s hs => (word_of_reGrantTypes (hwords s hs)).2

theorem read_contacts {contacts : List String} (h : validateVecContact contacts = true)
    (hne : contacts ≠ []) : Text.split ',' (Text.join "," contacts) = contacts :=
  split_join_comma hne fun s hs => noComma_contact (List.all_eq_true.mp h s hs)

theorem split_ne_nil (t : String) : Text.split ',' t ≠ [] := by
  rw [Text.split_eq]
  exact fun h => List.splitOn_ne_nil ',' t.toList (List.map_eq_nil_iff.mp h)

theorem noComma_getRedirectUris (c : Client) : NoComma c.getRedirectUris :=
  fun _ hs => (clean_of_mem_read hs).1

/-- **The metadata of the rows**: a response reports what is stored, and this is what was
requested, iff the request can be expressed by the columns. -/
theorem registered_iff (hvalid : req.validate = true) (hc : req.metadata c = c)
    (hd : d.tokenEndpointAuthMethod = req.authMethod) :
    c.reported d = c.registered d ∧ c.registered d = req.requested ↔ req.Expressible := by
  simp only [DynamicClientRequest.validate, Bool.and_eq_true] at hvalid
  obtain ⟨⟨⟨⟨⟨⟨huris, hgrants⟩, -⟩, -⟩, hcontacts⟩, -⟩, -⟩ := hvalid
  have hurisCol : c.redirectUris = Text.join "," req.redirectUris :=
    (congrArg Client.redirectUris hc).symm
  have hcontactsCol : c.contacts = req.contacts.map (Text.join ",") :=
    (congrArg Client.contacts hc).symm
  have hlogoutCol : c.postLogoutRedirectUris = req.postLogoutRedirectUri :=
    (congrArg Client.postLogoutRedirectUris hc).symm
  have hflowsCol : c.flowsEnabled = Text.join "," req.grantTypes :=
    (congrArg Client.flowsEnabled hc).symm
  constructor
  · rintro ⟨hreport, hrequest⟩
    have hread : c.getRedirectUris = req.redirectUris :=
      congrArg ClientMetadata.redirectUris hrequest
    have hlogout : c.getRedirectUris.head?.map (fun uri => [uri]) =
        req.postLogoutRedirectUri.map fun uri => [uri] :=
      congrArg ClientMetadata.postLogoutRedirectUris (hreport.trans hrequest)
    have hcontactsRead : c.contacts.map (Text.split ',') = req.contacts :=
      congrArg ClientMetadata.contacts hrequest
    refine ⟨?_, hread ▸ noComma_getRedirectUris c, ?_, ?_⟩
    · rw [← hread]
      exact fun h => split_ne_nil _ (List.map_eq_nil_iff.mp h)
    · intro hnone
      rw [hcontactsCol, hnone] at hcontactsRead
      exact split_ne_nil _ (Option.some.inj hcontactsRead)
    · rw [hread] at hlogout
      exact (Option.map_injective (fun a b h => (List.cons.inj h).1) hlogout).symm
  · intro h
    have hread : c.getRedirectUris = req.redirectUris := by
      rw [Client.getRedirectUris, hurisCol]
      exact read_uris huris h.nonempty h.noComma
    have hlogoutRead : c.getPostLogoutUris = req.postLogoutRedirectUri.map fun uri => [uri] := by
      rw [Client.getPostLogoutUris, hlogoutCol, h.logout]
      rcases hhead : req.redirectUris.head? with - | uri
      · rfl
      -- the address is one of the redirect URIs, so there is no comma in it either
      have hmem : uri ∈ req.redirectUris := List.mem_of_head? hhead
      have hspace := noSpace_of_reUri (List.all_eq_true.mp huris uri hmem)
      have hone : (Text.split ',' uri).map Text.trim = [uri] :=
        read_join (l := [uri]) (by simp)
          (fun s hs => List.mem_singleton.mp hs ▸ h.noComma uri hmem)
          fun s hs => List.mem_singleton.mp hs ▸ hspace
      rw [Option.map_some, Option.map_some, hone]
    have hcontactsRead : c.contacts.map (Text.split ',') = req.contacts := by
      rw [hcontactsCol]
      rcases hopt : req.contacts with - | contacts
      · rfl
      · rw [hopt] at hcontacts
        rw [Option.map_some, Option.map_some, read_contacts hcontacts fun hnil => h.contacts (by
          rw [hopt, hnil])]
    have hrequest : c.registered d = req.requested := by
      ext1
      · exact hread
      · show (Text.split ',' c.flowsEnabled).map Text.trim = req.grantTypes
        rw [hflowsCol]
        exact read_grantTypes hgrants
      · exact hlogoutRead
      · exact (congrArg Client.name hc).symm
      · exact (congrArg Client.clientUri hc).symm
      · exact hcontactsRead
      · exact (congrArg Client.idTokenAlg hc).symm
      · exact hd
      · exact (congrArg Client.accessTokenAlg hc).symm
    refine ⟨?_, hrequest⟩
    have hhead : c.getRedirectUris.head?.map (fun uri => [uri]) = c.getPostLogoutUris := by
      rw [hlogoutRead, hread, h.logout]
    unfold Client.reported
    rw [hhead]
    rfl

end Columns

/-! ### The copies in the cache -/

/-- What is cached for a client is named like the client. -/
structure CopiesNamed (w : World) : Prop where
  client : ∀ id c, w.cache .c12hr (Client.getCacheEntry id) = some (.client c) → c.id = id
  dynamic : ∀ id d, w.cache .c12hr (ClientDyn.getCacheEntry id) = some (.clientDyn d) → d.id = id

/-- The row of the registration, or its copy. -/
def FoundClientDyn (w : World) (id : String) (d : ClientDyn) : Prop :=
  w.cache .c12hr (ClientDyn.getCacheEntry id) = some (.clientDyn d) ∨
    d ∈ w.db .clientsDyn ∧ d.id = id

section Copies

variable {data : AppState} {req : DynamicClientRequest} {w w' : World} {id bearer : String}
  {cs : List (CacheName × Slot)}

theorem ClientDyn.getCacheEntry_inj {a b : String} :
    ClientDyn.getCacheEntry a = ClientDyn.getCacheEntry b ↔ a = b := String.append_right_inj _

theorem CopiesNamed.put {k : String} {v : CacheVal} (h : CopiesNamed w)
    (hc : ∀ id c, Client.getCacheEntry id = k → v = .client c → c.id = id)
    (hd : ∀ id d, ClientDyn.getCacheEntry id = k → v = .clientDyn d → d.id = id) :
    CopiesNamed (w.put .c12hr k v) := by
  constructor
  · intro id c hv
    rw [World.put_cache] at hv
    split at hv
    · next hk => exact hc id c hk.2 (Option.some.inj hv)
    · exact h.client id c hv
  · intro id d hv
    rw [World.put_cache] at hv
    split at hv
    · next hk => exact hd id d hk.2 (Option.some.inj hv)
    · exact h.dynamic id d hv

theorem CopiesNamed.put_client (h : CopiesNamed w) (c : Client) :
    CopiesNamed (w.put .c12hr (Client.getCacheEntry c.id) (.client c)) := by
  refine h.put (fun id c' hk hv => ?_) fun id d _ hv => ?_
  · cases hv
    exact (Client.getCacheEntry_inj.mp hk).symm
  · cases hv

theorem CopiesNamed.put_clientDyn (h : CopiesNamed w) (d : ClientDyn) :
    CopiesNamed (w.put .c12hr (ClientDyn.getCacheEntry d.id) (.clientDyn d)) := by
  refine h.put (fun id c _ hv => ?_) fun id d' hk hv => ?_
  · cases hv
  · cases hv
    exact (ClientDyn.getCacheEntry_inj.mp hk).symm

theorem CopiesNamed.put_clients (h : CopiesNamed w) (k : String) (cs : List Client) :
    CopiesNamed (w.put .c12hr k (.clients cs)) :=
  h.put (fun _ _ _ hv => by cases hv) fun _ _ _ hv => by cases hv

theorem CopiesNamed.del (h : CopiesNamed w) (n : CacheName) (k : String) :
    CopiesNamed (w.del n k) := by
  constructor
  · intro id c hv
    rw [World.del_cache] at hv
    split at hv
    · cases hv
    · exact h.client id c hv
  · intro id d hv
    rw [World.del_cache] at hv
    split at hv
    · cases hv
    · exact h.dynamic id d hv

theorem CopiesNamed.of_frame {ts : List Table} (h : CopiesNamed w) (hf : Frame ts cs w w')
    (hc : (.c12hr, .client) ∉ cs) (hd : (.c12hr, .clientDyn) ∉ cs) :
    CopiesNamed w' :=
  ⟨fun id c hv => h.client id c ((hf.cache _ _ _ hv).resolve_right hc),
    fun id d hv => h.dynamic id d ((hf.cache _ _ _ hv).resolve_right hd)⟩

/-- The copies are named like their clients at the end of every run that begins so. -/
abbrev KeepsNames (p : M ErrorResponse α) : Prop :=
  Hoare sem CopiesNamed (fun _ => True) p fun _ _ => True

theorem keepsNames_of_touches {p : M ErrorResponse α} {ts : List Table} (hp : Touches ts cs p)
    (hc : (.c12hr, .client) ∉ cs) (hd : (.c12hr, .clientDyn) ∉ cs) : KeepsNames p :=
  hoare_of_touches hp fun _ _ hf hI _ => ⟨hI.of_frame hf hc hd, trivial⟩

theorem keepsNames_bind {β : Type} {p : M ErrorResponse α} {f : α → M ErrorResponse β}
    (hp : KeepsNames p) (hf : ∀ a, KeepsNames (f a)) : KeepsNames (p >>= f) := hoare_bind hp hf

theorem keepsNames_ret (a : α) : KeepsNames (ret a : M ErrorResponse α) :=
  hoare_ret fun _ _ _ => trivial

theorem keepsNames_answer (x : Except ErrorResponse α) : KeepsNames (answer x) :=
  hoare_answer fun _ _ _ _ _ => trivial

theorem keepsNames_cacheGet {k : String} {as : CacheVal → Option α} :
    KeepsNames (cacheGet .c12hr k as) :=
  hoare_cacheGet (fun _ hI _ => ⟨hI.del _ _, trivial⟩) (fun _ _ _ _ => trivial)
    fun _ _ _ _ _ _ _ => trivial

theorem keepsNames_put_client (c : Client) :
    KeepsNames (cachePut .c12hr (Client.getCacheEntry c.id) (.client c)) :=
  hoare_cachePut fun _ hI _ => ⟨hI.put_client c, trivial⟩

theorem keepsNames_put_clientDyn (d : ClientDyn) :
    KeepsNames (cachePut .c12hr (ClientDyn.getCacheEntry d.id) (.clientDyn d)) :=
  hoare_cachePut fun _ hI _ => ⟨hI.put_clientDyn d, trivial⟩

theorem keepsNames_of_pure {p : M ErrorResponse α} (hp : Touches [] [] p) : KeepsNames p :=
  keepsNames_of_touches hp (by simp) (by simp)

theorem keepsNames_execute (ss : List DbWrite) : KeepsNames (execute ss) := by
  have htouches : Touches (ss.map DbWrite.table) [] (execute ss) :=
    touches_execute fun _ hs => List.mem_map_of_mem hs
  exact keepsNames_of_touches htouches (by simp) (by simp)

theorem Client.find_keepsNames (id : String) : KeepsNames (Client.find id) := by
  refine keepsNames_bind keepsNames_cacheGet fun o => ?_
  rcases o with - | c
  · refine keepsNames_bind (hoare_fetchOne fun _ _ _ _ _ _ => trivial) fun c => ?_
    exact keepsNames_bind (keepsNames_put_client c) fun _ => keepsNames_ret c
  · exact keepsNames_ret c

theorem ClientDyn.find_keepsNames (id : String) : KeepsNames (ClientDyn.find id) := by
  refine keepsNames_bind keepsNames_cacheGet fun o => ?_
  rcases o with - | d
  · refine keepsNames_bind (hoare_fetchOne fun _ _ _ _ _ _ => trivial) fun d => ?_
    exact keepsNames_bind (keepsNames_put_clientDyn d) fun _ => keepsNames_ret d
  · exact keepsNames_ret d

theorem Client.saveTxn_keepsNames (c : Client) : KeepsNames c.saveTxn := by
  refine keepsNames_bind (keepsNames_execute _) fun _ => ?_
  refine keepsNames_bind (keepsNames_put_client c) fun _ => ?_
  refine keepsNames_bind (hoare_select fun _ _ _ => trivial) fun all => ?_
  refine keepsNames_bind (hoare_cachePut fun w hI _ => ⟨hI.put_clients _ _, trivial⟩) fun _ => ?_
  exact keepsNames_ret _

theorem ClientDyn.update_keepsNames (slf : ClientDyn) (method : String) :
    KeepsNames (slf.update data method) := by
  refine keepsNames_bind (keepsNames_of_pure touches_unixTimestamp) fun now => ?_
  refine keepsNames_bind ?_ fun token => ?_
  · unfold ClientDyn.nextToken
    split
    · refine keepsNames_bind (keepsNames_of_pure (Client.generateNewSecret_touches data)) fun _ => ?_
      exact keepsNames_ret _
    · exact keepsNames_ret _
  · refine keepsNames_bind (keepsNames_execute _) fun _ => ?_
    exact keepsNames_bind (keepsNames_put_clientDyn _) fun _ => keepsNames_ret _

/-- **The copies are named like their clients** after a registration, an update and a read. -/
theorem createDynamic_keepsNames : KeepsNames (Client.createDynamic data req) := by
  refine keepsNames_bind (keepsNames_of_pure (Client.tryFromDynReg_touches data req)) fun c => ?_
  refine keepsNames_bind (keepsNames_execute _) fun _ => ?_
  refine keepsNames_bind ?_ fun created => ?_
  · refine keepsNames_bind (keepsNames_of_pure (Client.generateNewSecret_touches data)) fun _ => ?_
    refine keepsNames_bind (keepsNames_of_pure touches_unixTimestamp) fun _ => ?_
    exact keepsNames_bind (keepsNames_execute _) fun _ => keepsNames_ret _
  · exact keepsNames_bind (keepsNames_execute _) fun _ => keepsNames_answer _

theorem putClientsDyn_keepsNames : KeepsNames (putClientsDyn data bearer id req) := by
  refine keepsNames_bind (ClientDyn.find_keepsNames id) fun dyn => ?_
  refine keepsNames_bind (keepsNames_answer _) fun _ => ?_
  refine keepsNames_bind (keepsNames_of_pure (Client.tryFromDynReg_touches data req)) fun new => ?_
  refine keepsNames_bind (Client.find_keepsNames dyn.id) fun current => ?_
  refine keepsNames_bind (hoare_throwIf fun _ _ _ _ => trivial) fun _ => ?_
  refine keepsNames_bind (Client.saveTxn_keepsNames _) fun _ => ?_
  refine keepsNames_bind (ClientDyn.update_keepsNames dyn _) fun _ => ?_
  exact keepsNames_bind (keepsNames_execute _) fun _ => keepsNames_answer _

theorem getClientsDyn_keepsNames : KeepsNames (getClientsDyn data bearer id) := by
  refine keepsNames_bind (ClientDyn.find_keepsNames id) fun dyn => ?_
  refine keepsNames_bind (keepsNames_answer _) fun _ => ?_
  exact keepsNames_bind (Client.find_keepsNames id) fun _ => keepsNames_answer _

end Copies

/-! ### The rows and the response -/

/-- The rows of one client. -/
structure ClientRows (w : World) (id : String) (c : Client) (d : ClientDyn) : Prop where
  client : (w.db .clients).filter (fun r => r.id == id) = [c]
  dynamic : (w.db .clientsDyn).filter (fun r => r.id == id) = [d]

/-- The rows as a registration or an update with this request leaves them. -/
structure WrittenFor (w : World) (id : String) (req : DynamicClientRequest) (c : Client)
    (d : ClientDyn) : Prop extends ClientRows w id c d where
  metadata : req.metadata c = c
  method : d.tokenEndpointAuthMethod = req.authMethod

/-- The response is about this client.  It reports the metadata of the rows, and this is the
metadata of the request. -/
structure Reports (id : String) (req : DynamicClientRequest) (c : Client) (d : ClientDyn)
    (resp : DynamicClientResponse) : Prop where
  named : resp.clientId = id
  stored : resp.metadata = c.registered d
  requested : c.registered d = req.requested

section Runs

variable {data : AppState} {req : DynamicClientRequest} {w w' : World} {id bearer : String}
  {c c₁ : Client} {d d₁ : ClientDyn} {resp : DynamicClientResponse} {b : Bool}

theorem build_metadata (h : DynamicClientResponse.build data c d b = .ok resp) :
    resp.clientId = c.id ∧ resp.metadata = c.reported d := by
  obtain ⟨secret, -, h⟩ := bind_eq_ok.mp h
  rcases b with - | -
  · cases h
    exact ⟨rfl, rfl⟩
  · obtain ⟨token, -, h⟩ := bind_eq_ok.mp h
    cases h
    exact ⟨rfl, rfl⟩

/-- A response that was built from other copies than the rows. -/
theorem reports_iff (hvalid : req.validate = true) (hwritten : WrittenFor w id req c d)
    (hid : c₁.id = id) (hbuild : DynamicClientResponse.build data c₁ d₁ b = .ok resp) :
    Reports id req c d resp ↔ req.Expressible ∧ c₁.reported d₁ = c.reported d := by
  obtain ⟨hname, hreport⟩ := build_metadata hbuild
  have hiff := registered_iff hvalid hwritten.metadata hwritten.method
  constructor
  · intro h
    have hcopy : c₁.reported d₁ = c.registered d := hreport.symm.trans h.stored
    have huris : c₁.getRedirectUris = c.getRedirectUris :=
      congrArg ClientMetadata.redirectUris hcopy
    have hlogout : c₁.getRedirectUris.head?.map (fun uri => [uri]) = c.getPostLogoutUris :=
      congrArg ClientMetadata.postLogoutRedirectUris hcopy
    have hsame : c.reported d = c.registered d := by
      unfold Client.reported
      rw [← huris, hlogout]
      rfl
    exact ⟨hiff.mp ⟨hsame, h.requested⟩, hcopy.trans hsame.symm⟩
  · rintro ⟨hexpr, hcopy⟩
    obtain ⟨hsame, hrequest⟩ := hiff.mpr hexpr
    exact ⟨hname.trans hid, (hreport.trans hcopy).trans hsame, hrequest⟩

theorem exec_tryFromDynReg_metadata {new : Client}
    (h : Exec sem (Client.tryFromDynReg data req) w (.ok new) w') : req.metadata new = new := by
  obtain ⟨rnd, w₁, -, h⟩ := exec_bind_ok.mp h
  obtain ⟨⟨secret, kid⟩, w₂, -, hret, -⟩ := exec_bind_ok.mp h
  cases hret
  rfl

/-- **A registration** adds the rows that it reports. -/
theorem createDynamic_rows (h : Exec sem (Client.createDynamic data req) w (.ok resp) w') :
    ∃ c d, WrittenFor w' c.id req c d ∧ DynamicClientResponse.build data c d true = .ok resp := by
  obtain ⟨new, w₁, hnew, h⟩ := exec_bind_ok.mp h
  obtain ⟨_, w₂, -, h⟩ := exec_bind_ok.mp h
  obtain ⟨⟨dyn, stmt⟩, w₃, hcreate, h⟩ := exec_bind_ok.mp h
  obtain ⟨_, w₄, hexec, hanswer⟩ := exec_bind_ok.mp h
  obtain ⟨⟨_, token⟩, w₅, -, hcreate⟩ := exec_bind_ok.mp hcreate
  obtain ⟨created, w₆, -, hcreate⟩ := exec_bind_ok.mp hcreate
  obtain ⟨_, w₇, -, hret, -⟩ := exec_bind_ok.mp hcreate
  cases hret
  obtain ⟨hbuild, rfl⟩ := exec_answer.mp hanswer
  obtain ⟨db, hdb, rfl⟩ := exec_execute.mp hexec
  -- neither row can be inserted next to one with its id
  obtain ⟨db₁, hclient, hrest⟩ := Option.bind_eq_some_iff.mp hdb.applied
  obtain ⟨db₂, hdyn, hdone⟩ := Option.bind_eq_some_iff.mp hrest
  obtain rfl := Option.some.inj hdone
  simp only [DbWrite.apply, Option.ite_none_left_eq_some, Option.some.injEq] at hclient hdyn
  obtain ⟨hfree, rfl⟩ := hclient
  obtain ⟨hfreeDyn, rfl⟩ := hdyn
  have hids : ∀ r ∈ w₃.db .clients, r.id ≠ new.id := fun r hr he =>
    hfree (List.any_eq_true.mpr ⟨r, hr, beq_iff_eq.mpr he.symm⟩)
  have hidsDyn : ∀ r ∈ w₃.db .clientsDyn, r.id ≠ new.id := fun r hr he =>
    hfreeDyn (List.any_eq_true.mpr ⟨r, hr, beq_iff_eq.mpr he.symm⟩)
  refine ⟨_, _, ⟨⟨?_, ?_⟩, exec_tryFromDynReg_metadata hnew, ?_⟩, hbuild⟩
  · exact filter_append_new hids
  · exact @filter_append_new ClientDyn String ClientDyn.id _
      ⟨new.id, created, none, token, req.authMethod⟩ _ _ hidsDyn
  · rfl

/-- A copy that is found carries the id that was asked for. -/
theorem CopiesNamed.id_of_found (h : CopiesNamed w) (hc : FoundClient w id c) : c.id = id := by
  rcases hc with hc | ⟨-, hid⟩
  · exact h.client id c hc
  · exact hid

theorem CopiesNamed.id_of_foundDyn (h : CopiesNamed w) (hd : FoundClientDyn w id d) :
    d.id = id := by
  rcases hd with hd | ⟨-, hid⟩
  · exact h.dynamic id d hd
  · exact hid

theorem ClientDyn.find_touches (id : String) :
    Touches [] [(.c12hr, .clientDyn)] (ClientDyn.find id) := by
  refine touches_bind (touches_cacheGet ..) fun o => ?_
  rcases o with - | d
  · refine touches_bind (touches_fetchOne _ _) fun d => ?_
    exact touches_bind (touches_cachePut (by simp [CacheVal.slot]) _) fun _ => touches_ret _
  · exact touches_ret _

theorem exec_findDyn (h : Exec sem (ClientDyn.find id) w (.ok d) w') :
    FoundClientDyn w id d ∧ Frame [] [(.c12hr, .clientDyn)] w w' := by
  refine ⟨?_, (ClientDyn.find_touches id).frame h⟩
  obtain ⟨o, w₁, hget, hrest⟩ := exec_bind_ok.mp h
  rcases exec_cacheGet.mp hget with ⟨rfl, hw⟩ | ⟨a, v, rfl, hv, ha, rfl⟩
  · obtain ⟨r, w₂, hrow, hput⟩ := exec_bind_ok.mp hrest
    obtain ⟨_, w₃, -, hret⟩ := exec_bind_ok.mp hput
    obtain rfl := Except.ok.inj (exec_ret.mp hret).1
    have hdb : w₁.db = w.db := by
      rcases hw with rfl | ⟨-, rfl⟩ <;> rfl
    obtain ⟨hmem, hid⟩ := List.mem_filter.mp (List.mem_of_head? (exec_fetchOne.mp hrow).1)
    exact .inr ⟨hdb ▸ hmem, beq_iff_eq.mp hid⟩
  · obtain rfl := Except.ok.inj (exec_ret.mp hrest).1
    rw [CacheVal.clientDyn?_eq_some.mp ha] at hv
    exact .inl hv

/-- Finding the registration leaves the client as it was. -/
theorem FoundClient.of_findDyn (hf : Frame [] [(.c12hr, .clientDyn)] w w')
    (h : FoundClient w' id c) : FoundClient w id c := by
  rcases h with h | ⟨hmem, hid⟩
  · exact .inl ((hf.cache _ _ _ h).resolve_right (by simp [CacheVal.slot]))
  · exact .inr ⟨by rw [← hf.db .clients (by simp)]; exact hmem, hid⟩

/-- **A read** reports the copies that it has found, and changes no row. -/
theorem getClientsDyn_found (h : Exec sem (getClientsDyn data bearer id) w (.ok resp) w') :
    w'.db = w.db ∧ ∃ c₁ d₁, FoundClient w id c₁ ∧ FoundClientDyn w id d₁ ∧
      DynamicClientResponse.build data c₁ d₁ false = .ok resp := by
  obtain ⟨dyn, w₁, hdyn, h⟩ := exec_bind_ok.mp h
  obtain ⟨_, w₂, hvalid, h⟩ := exec_bind_ok.mp h
  obtain ⟨client, w₃, hfind, hanswer⟩ := exec_bind_ok.mp h
  obtain ⟨hfoundDyn, hframe⟩ := exec_findDyn hdyn
  obtain ⟨-, rfl⟩ := exec_answer.mp hvalid
  obtain ⟨hfound, hframe'⟩ := exec_find_found hfind
  obtain ⟨hbuild, rfl⟩ := exec_answer.mp hanswer
  refine ⟨?_, client, dyn, hfound.of_findDyn hframe, hfoundDyn, hbuild⟩
  funext t
  rw [hframe'.db t (by simp), hframe.db t (by simp)]

theorem ClientRows.updated {db : Db} {new : Client} {g : ClientDyn → ClientDyn}
    (h : ClientRows w id c d)
    (hdb : applyAll [new.saveStmt, .update .clientsDyn (fun r => r.id == id) g] w.db = some db)
    (hg : ∀ r, (g r).id = r.id) (hnew : new.id = id) :
    ClientRows { w with db } id new (g d) := by
  obtain ⟨db₁, hclient, hrest⟩ := Option.bind_eq_some_iff.mp hdb
  obtain ⟨db₂, hdyn, hdone⟩ := Option.bind_eq_some_iff.mp hrest
  obtain rfl := Option.some.inj hdone
  simp only [Client.saveStmt, DbWrite.apply, Option.some.injEq] at hclient hdyn
  obtain rfl := hclient
  obtain rfl := hdyn
  constructor
  · have hrow : c.id = id := by
      have hmem : c ∈ (w.db .clients).filter (fun r => r.id == id) := by
        rw [h.client]
        exact List.mem_singleton_self c
      exact beq_iff_eq.mp (List.mem_filter.mp hmem).2
    have hsame : ({ new with id := c.id } : Client) = new := by
      rw [hrow, ← hnew]
    show ((w.db .clients).map fun r => if r.id == new.id then { new with id := r.id } else r).filter
      (fun r => r.id == id) = [new]
    rw [hnew, filter_map_update (fun r : Client => r.id == id) (fun r => { new with id := r.id })
      fun _ => rfl, h.client, List.map_singleton, hsame]
  · show ((w.db .clientsDyn).map fun r => if r.id == id then g r else r).filter
      (fun r => r.id == id) = [g d]
    rw [filter_map_update (fun r : ClientDyn => r.id == id) g fun r => by rw [hg], h.dynamic,
      List.map_singleton]

/-- **An update** replaces the rows of the client, and reports the new ones. -/
theorem putClientsDyn_rows (hcopies : CopiesNamed w) (hrows : ClientRows w id c d)
    (h : Exec sem (putClientsDyn data bearer id req) w (.ok resp) w') :
    ∃ c' d' slf b, c'.id = id ∧ WrittenFor w' id req c' d' ∧ c'.reported slf = c'.reported d' ∧
      DynamicClientResponse.build data c' slf b = .ok resp := by
  obtain ⟨dyn, w₂, hdyn, h⟩ := exec_bind_ok.mp h
  obtain ⟨_, w₁, hvalid, h⟩ := exec_bind_ok.mp h
  obtain ⟨new, w₃, hnew, h⟩ := exec_bind_ok.mp h
  obtain ⟨current, w₄, hfind, h⟩ := exec_bind_ok.mp h
  obtain ⟨_, w₅, hdynamic, h⟩ := exec_bind_ok.mp h
  obtain ⟨stmt, w₆, hsave, h⟩ := exec_bind_ok.mp h
  obtain ⟨⟨slf, stmtDyn⟩, w₇, hupdate, h⟩ := exec_bind_ok.mp h
  obtain ⟨_, w₈, hexec, hanswer⟩ := exec_bind_ok.mp h
  obtain ⟨-, rfl⟩ := exec_answer.mp hvalid
  obtain ⟨-, rfl⟩ := exec_throwIf_ok.mp hdynamic
  obtain ⟨hbuild, rfl⟩ := exec_answer.mp hanswer
  -- both copies are found under the id of the request
  obtain ⟨hfoundDyn, hframe₁⟩ := exec_findDyn hdyn
  have hdynId : dyn.id = id := hcopies.id_of_foundDyn hfoundDyn
  have hframe₃ := (Client.tryFromDynReg_touches data req).frame hnew
  obtain ⟨hfound, hframe₄⟩ := exec_find_found hfind
  rw [hdynId] at hfound
  have hfound₁ : FoundClient w₁ id current := by
    rcases hfound with hfound | ⟨hmem, hid⟩
    · exact .inl ((hframe₃.cache _ _ _ hfound).resolve_right (by simp))
    · exact .inr ⟨by rw [← hframe₃.db .clients (by simp)]; exact hmem, hid⟩
  have hcurrent : current.id = id := hcopies.id_of_found (hfound₁.of_findDyn hframe₁)
  -- until the commit the rows are as they were
  obtain ⟨rfl, hframe₆⟩ := Client.saveTxn_ok hsave
  have hframe₇ := (ClientDyn.update_touches data dyn req.authMethod).frame hupdate
  have hdb : w₇.db = w.db := by
    funext t
    rw [hframe₇.db t (by simp), hframe₆.db t (by simp), hframe₄.db t (by simp),
      hframe₃.db t (by simp), hframe₁.db t (by simp)]
  obtain ⟨db, hcommit, rfl⟩ := exec_execute.mp hexec
  obtain ⟨now, _, -, hupdate⟩ := exec_bind_ok.mp hupdate
  obtain ⟨token, _, -, hupdate⟩ := exec_bind_ok.mp hupdate
  obtain ⟨_, _, -, hupdate⟩ := exec_bind_ok.mp hupdate
  obtain ⟨_, _, -, hret, -⟩ := exec_bind_ok.mp hupdate
  cases hret
  have happly := hcommit.applied
  rw [hdb, hdynId] at happly
  have hafter := hrows.updated happly (fun _ => rfl) hcurrent
  have hmeta := exec_tryFromDynReg_metadata hnew
  refine ⟨{ new with
      id := current.id, forceMfa := current.forceMfa, scopes := current.scopes,
      defaultScopes := current.defaultScopes }, _,
    ⟨dyn.id, dyn.created, some now, token, req.authMethod⟩, _, hcurrent,
    ⟨⟨hafter.client, hafter.dynamic⟩, ?_, rfl⟩, rfl, hbuild⟩
  exact congrArg (fun c : Client => { c with
    id := current.id, forceMfa := current.forceMfa, scopes := current.scopes,
    defaultScopes := current.defaultScopes }) hmeta

/-- **What the responses report.**  A registration, a later update and a later read report the
metadata of the stored client, as it was requested, iff the columns can express the request and,
for a read, the copies that it finds report what the rows do. -/
theorem dynamic_metadata_iff (data : AppState) {req : DynamicClientRequest}
    (hvalid : req.validate = true) :
    (∀ (w w' : World) (resp : DynamicClientResponse), CopiesNamed w →
      Exec sem (Client.createDynamic data req) w (.ok resp) w' →
      CopiesNamed w' ∧ ∃ c d, WrittenFor w' resp.clientId req c d ∧
        (Reports resp.clientId req c d resp ↔ req.Expressible)) ∧
    (∀ (bearer id : String) (c₀ : Client) (d₀ : ClientDyn) (w w' : World)
      (resp : DynamicClientResponse), CopiesNamed w → ClientRows w id c₀ d₀ →
      Exec sem (putClientsDyn data bearer id req) w (.ok resp) w' →
      CopiesNamed w' ∧ ∃ c d, WrittenFor w' id req c d ∧
        (Reports id req c d resp ↔ req.Expressible)) ∧
    ∀ (bearer id : String) (c : Client) (d : ClientDyn) (w w' : World)
      (resp : DynamicClientResponse), CopiesNamed w → WrittenFor w id req c d →
      Exec sem (getClientsDyn data bearer id) w (.ok resp) w' →
      CopiesNamed w' ∧ WrittenFor w' id req c d ∧
        ∃ c₁ d₁, FoundClient w id c₁ ∧ FoundClientDyn w id d₁ ∧
          (Reports id req c d resp ↔ req.Expressible ∧ c₁.reported d₁ = c.reported d) := by
  refine ⟨fun w w' resp hcopies h => ?_, fun bearer id c₀ d₀ w w' resp hcopies hrows h => ?_,
    fun bearer id c d w w' resp hcopies hwritten h => ?_⟩
  · obtain ⟨c, d, hwritten, hbuild⟩ := createDynamic_rows h
    obtain ⟨hname, -⟩ := build_metadata hbuild
    rw [hname]
    refine ⟨(createDynamic_keepsNames w _ w' hcopies trivial h).1, c, d, hwritten, ?_⟩
    rw [reports_iff hvalid hwritten rfl hbuild, and_iff_left rfl]
  · obtain ⟨c, d, slf, b, hid, hwritten, hsame, hbuild⟩ := putClientsDyn_rows hcopies hrows h
    refine ⟨(putClientsDyn_keepsNames w _ w' hcopies trivial h).1, c, d, hwritten, ?_⟩
    rw [reports_iff hvalid hwritten hid hbuild, and_iff_left hsame]
  · obtain ⟨hdb, c₁, d₁, hc₁, hd₁, hbuild⟩ := getClientsDyn_found h
    refine ⟨(getClientsDyn_keepsNames w _ w' hcopies trivial h).1, ?_, c₁, d₁, hc₁, hd₁,
      reports_iff hvalid hwritten (hcopies.id_of_found hc₁) hbuild⟩
    refine ⟨⟨?_, ?_⟩, hwritten.metadata, hwritten.method⟩
    · rw [hdb]
      exact hwritten.client
    · rw [hdb]
      exact hwritten.dynamic

end Runs

/-- A world without clients. -/
def emptyWorld : World where
  clock := 0
  issued := []
  db _ := []
  cache _ _ := none

theorem copiesNamed_emptyWorld : CopiesNamed emptyWorld :=
  ⟨fun _ _ h => (by cases h), fun _ _ h => (by cases h)⟩

theorem copiesNamed_registeredWorld (c : Client) (d : ClientDyn) :
    CopiesNamed (registeredWorld c d) :=
  ⟨fun _ _ h => (by cases h), fun _ _ h => (by cases h)⟩

/-- A client that wants its users back where they have logged in. -/
def logoutRequest : DynamicClientRequest :=
  { publicRequest with postLogoutRedirectUri := some "https://app/callback" }

theorem expressible_logoutRequest : logoutRequest.Expressible := by
  refine ⟨by decide, fun s hs => ?_, by decide, by decide⟩
  obtain rfl := List.mem_singleton.mp hs
  decide

/-- A client registers and updates itself. -/
def dynamicSession (data : AppState) (req : DynamicClientRequest) :
    M ErrorResponse (DynamicClientResponse × DynamicClientResponse) := do
  let created ← Client.createDynamic data req
  let updated ← putClientsDyn data (created.registrationAccessToken.getD "") created.clientId req
  return (created, updated)

def sessionChoices : List Choice :=
  [.rand "aaaaaaaaaaaaaaaa", .ok, .rand (String.ofList (List.replicate 64 'r')), .time 1000, .ok,
    .ok, .miss, .ok, .ok, .rand "bbbbbbbbbbbbbbbb", .miss, .ok, .ok, .ok, .ok, .ok, .ok, .time 2000,
    .rand (String.ofList (List.replicate 64 's')), .ok, .ok, .ok]

/-- The responses to the registration, to an update and to a read report what was requested. -/
theorem dynamic_metadata_iff_session :
    (∃ id c d resp, Reports id logoutRequest c d resp) ∧
    (∃ id c d resp, Reports id logoutRequest c d resp) ∧
    ∃ resp,
      Reports "dyn$app" logoutRequest (logoutRequest.metadata dynamicClient) dynamicRow resp := by
  obtain ⟨r, w', hx, hr⟩ := Pool.exists_exec_of_choices Op.run
    (dynamicSession sampleState logoutRequest) sessionChoices emptyWorld
    (fun r _ => r.isOk) (by decide +kernel)
  rcases r with e | ⟨resp, resp'⟩
  · cases hr
  obtain ⟨created, w₁, hcreate, hx⟩ := exec_bind_ok.mp hx
  obtain ⟨updated, w₂, hupdate, hret, -⟩ := exec_bind_ok.mp hx
  cases hret
  obtain ⟨r, w₃, hread, hr⟩ := Pool.exists_exec_of_choices Op.run
    (getClientsDyn sampleState "" "dyn$app") [.miss, .ok, .ok, .miss, .ok, .ok]
    (registeredWorld (logoutRequest.metadata dynamicClient) dynamicRow)
    (fun r _ => r.isOk) (by decide +kernel)
  rcases r with e | read
  · cases hr
  have hiff := dynamic_metadata_iff sampleState (show logoutRequest.validate = true by decide)
  obtain ⟨hcopies₁, c, d, hwritten, hcreated⟩ :=
    hiff.1 emptyWorld w₁ resp copiesNamed_emptyWorld hcreate
  obtain ⟨-, c', d', -, hupdated⟩ :=
    hiff.2.1 _ _ c d w₁ w₂ resp' hcopies₁ hwritten.toClientRows hupdate
  obtain ⟨-, -, c₁, d₁, hc₁, hd₁, hreported⟩ := hiff.2.2 "" "dyn$app" _ dynamicRow _ w₃ read
    (copiesNamed_registeredWorld _ _) ⟨⟨rfl, rfl⟩, rfl, rfl⟩ hread
  -- nothing is cached, so the rows themselves are found
  have hclient : c₁ = logoutRequest.metadata dynamicClient := by
    rcases hc₁ with h | ⟨hmem, -⟩
    · cases h
    · exact List.mem_singleton.mp hmem
  have hdyn : d₁ = dynamicRow := by
    rcases hd₁ with h | ⟨hmem, -⟩
    · cases h
    · exact List.mem_singleton.mp hmem
  refine ⟨⟨_, c, d, resp, hcreated.mpr expressible_logoutRequest⟩,
    ⟨_, c', d', resp', hupdated.mpr expressible_logoutRequest⟩, read, ?_⟩
  exact hreported.mpr ⟨expressible_logoutRequest, by rw [hclient, hdyn]⟩

/-- A client without an address for the logout is told that it has one. -/
theorem redirect_uri_as_logout :
    ¬ ∀ (data : AppState) (req : DynamicClientRequest) (w w' : World)
      (resp : DynamicClientResponse), req.validate = true → CopiesNamed w →
      Exec sem (Client.createDynamic data req) w (.ok resp) w' →
      ∃ c d, WrittenFor w' resp.clientId req c d ∧ Reports resp.clientId req c d resp := by
  intro hall
  obtain ⟨r, w', hx, hr⟩ := Pool.exists_exec_of_choices Op.run
    (Client.createDynamic sampleState publicRequest) (sessionChoices.take 6) emptyWorld
    (fun r _ => r.toOption.any fun resp =>
      resp.postLogoutRedirectUri == some "https://app/callback") (by decide +kernel)
  rcases r with e | resp
  · cases hr
  obtain ⟨c, d, -, hreports⟩ := hall sampleState publicRequest emptyWorld w' resp (by decide)
    copiesNamed_emptyWorld hx
  have hlogout : resp.postLogoutRedirectUri.map (fun uri => [uri]) = none :=
    congrArg ClientMetadata.postLogoutRedirectUris (hreports.stored.trans hreports.requested)
  rw [beq_iff_eq.mp hr] at hlogout
  cases hlogout

end Rauthy
