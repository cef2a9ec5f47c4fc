/-
Rauthy/ClientUpdates.lean

`update_client` (`rauthy-service/src/client.rs`): every field of the request is written to the
client one by one, and the client is saved with all its columns.  An optional list that the
request leaves out is taken away from the client, with one exception: the allowed origins are
overwritten only if the request has some.

Main result: `update_client_iff`.  The stored client is the requested one exactly if the request
has a list of origins or the client had none.
-/
import Rauthy.Encryption
import Rauthy.ScopeLists

namespace Rauthy

open Prog

section

variable {data : AppState} {w w' : World} {id : String} {req : UpdateClientRequest}
  {found c : Client}

/-! ### What is requested -/

/-- The fields of the request, each in the form in which a client has it. -/
structure UpdateClientRequest.Written (req : UpdateClientRequest) (w : World) (found c : Client) :
    Prop where
  id : c.id = req.id
  name : c.name = req.name
  confidential : c.confidential = req.confidential
  kept : found.confidential = true → req.confidential = true → c.secret = found.secret
  cleared : req.confidential = false → c.secret = none
  redirectUris : c.redirectUris = Text.join "," req.redirectUris
  postLogoutRedirectUris :
    c.postLogoutRedirectUris = req.postLogoutRedirectUris.map (Text.join ",")
  allowedOrigins : c.allowedOrigins = req.allowedOrigins.map (Text.join ",")
  enabled : c.enabled = req.enabled
  flowsEnabled : c.flowsEnabled = Text.join "," req.flowsEnabled
  accessTokenAlg : c.accessTokenAlg = req.accessTokenAlg
  idTokenAlg : c.idTokenAlg = req.idTokenAlg
  refreshToken : c.refreshToken = req.refreshToken
  authCodeLifetime : c.authCodeLifetime = req.authCodeLifetime
  accessTokenLifetime : c.accessTokenLifetime = req.accessTokenLifetime
  scopes : ∃ scopes, ServedScopes w scopes ∧
    c.scopes = scopeText (scopes.map Scope.name) req.scopes
  defaultScopes : ∃ scopes, ServedScopes w scopes ∧
    c.defaultScopes = scopeText (scopes.map Scope.name) req.defaultScopes
  challenge : c.challenge = req.challenges.map (Text.join ",")
  forceMfa : c.forceMfa = req.forceMfa
  clientUri : c.clientUri = req.clientUri
  contacts : c.contacts = req.contacts.map (Text.join ",")

/-- The client is what every later read finds: in its row, if it has one, and in the cache. -/
structure Client.StoredIn (c : Client) (w : World) : Prop where
  row : ∀ r ∈ w.db .clients, r.id = c.id → r = c
  entry : w.cache .c12hr (Client.getCacheEntry c.id) = some (.client c)
  list : ∃ cs, w.cache .c12hr "clients_" = some (.clients cs) ∧ c ∈ cs ∧
    ∀ r ∈ cs, r.id = c.id → r = c

/-! ### Saving -/

/-- The list of all clients that `save` caches. -/
theorem mem_saved_list (c : Client) (all : List Client) :
    let clients := all.map fun r => if r.id = c.id then c else r
    let l := if all.any (·.id == c.id) then clients else clients ++ [c]
    c ∈ l ∧ ∀ r ∈ l, r.id = c.id → r = c := by
  intro clients l
  have hmine : ∀ r ∈ clients, r.id = c.id → r = c := by
    intro r hr hid
    obtain ⟨r₀, -, rfl⟩ := List.mem_map.mp hr
    by_cases h₀ : r₀.id = c.id
    · rw [if_pos h₀]
    · rw [if_neg h₀] at hid
      exact absurd hid h₀
  by_cases hany : all.any (·.id == c.id) = true
  · have hl : l = clients := if_pos hany
    rw [hl]
    obtain ⟨r, hr, hid⟩ := List.any_eq_true.mp hany
    exact ⟨List.mem_map.mpr ⟨r, hr, if_pos (beq_iff_eq.mp hid)⟩, hmine⟩
  · have hl : l = clients ++ [c] := if_neg hany
    rw [hl]
    refine ⟨by simp, fun r hr hid => ?_⟩
    rcases List.mem_append.mp hr with hr | hr
    · exact hmine r hr hid
    · exact List.mem_singleton.mp hr

theorem getCacheEntry_ne_list (id : String) : Client.getCacheEntry id ≠ "clients_" := by
  intro h
  have h' := congrArg String.toList h
  simp [Client.getCacheEntry] at h'

/-- **A saved client** is found in every place, and no row has come or gone. -/
theorem Client.save_stored {u : Unit} (h : Exec sem c.save w (.ok u) w') :
    c.StoredIn w' ∧ w'.db .clients = replaceRow Client.id c (w.db .clients) := by
  obtain ⟨_, w₁, hexec, h⟩ := exec_bind_ok.mp h
  obtain ⟨_, w₂, hentry, h⟩ := exec_bind_ok.mp h
  obtain ⟨all, w₃, hall, hlist⟩ := exec_bind_ok.mp h
  obtain ⟨db, hdb, rfl⟩ := exec_execute.mp hexec
  obtain rfl := exec_cachePut.mp hentry
  obtain ⟨rfl, rfl⟩ := exec_select.mp hall
  obtain rfl := exec_cachePut.mp hlist
  have hrows : db .clients = replaceRow Client.id c (w.db .clients) := by
    have happly := hdb.applied
    simp only [applyAll] at happly
    exact (saveStmt_clients happly).1
  have hmine : ∀ r ∈ replaceRow Client.id c (w.db .clients), r.id = c.id → r = c := by
    intro r hr hid
    rcases mem_replaceRow hr with rfl | ⟨-, hne⟩
    · rfl
    · exact absurd hid hne
  refine ⟨⟨?_, ?_, ?_⟩, hrows⟩
  · intro r hr
    exact hmine r (hrows ▸ hr)
  · rw [World.put_cache, if_neg fun hk => getCacheEntry_ne_list c.id hk.2, World.put_cache,
      if_pos ⟨rfl, rfl⟩]
  · exact ⟨_, by rw [World.put_cache, if_pos ⟨rfl, rfl⟩], mem_saved_list c _⟩

/-! ### The update -/

theorem exec_find_found (h : Exec sem (Client.find id) w (.ok c) w') :
    FoundClient w id c ∧ Frame [] [(.c12hr, .client)] w w' := by
  refine ⟨?_, (Client.find_touches id).frame h⟩
  obtain ⟨o, w₁, hget, hrest⟩ := exec_bind_ok.mp h
  rcases exec_cacheGet.mp hget with ⟨rfl, hw⟩ | ⟨a, v, rfl, hv, ha, rfl⟩
  · obtain ⟨r, w₂, hrow, hput⟩ := exec_bind_ok.mp hrest
    obtain ⟨_, w₃, -, hret⟩ := exec_bind_ok.mp hput
    obtain ⟨hc, -⟩ := exec_ret.mp hret
    obtain rfl := Except.ok.inj hc
    have hdb : w₁.db = w.db := by
      rcases hw with rfl | ⟨-, rfl⟩ <;> rfl
    obtain ⟨hhead, -⟩ := exec_fetchOne.mp hrow
    obtain ⟨hmem, hid⟩ := List.mem_filter.mp (List.mem_of_head? hhead)
    exact .inr ⟨hdb ▸ hmem, beq_iff_eq.mp hid⟩
  · obtain ⟨hc, -⟩ := exec_ret.mp hrest
    obtain rfl := Except.ok.inj hc
    rw [CacheVal.client?_eq_some.mp ha] at hv
    exact .inl hv

theorem ServedScopes.of_frame {ts : List Table} {cs : List (CacheName × Slot)}
    {scopes : List Scope} (h : ServedScopes w' scopes) (hf : Frame ts cs w w')
    (ht : .scopes ∉ ts) (hc : (.c12hr, .scopes) ∉ cs) : ServedScopes w scopes := by
  rcases h with h | h
  · rcases hf.cache _ _ _ h with h | h
    · exact .inl h
    · exact absurd h hc
  · exact .inr (h.trans (hf.db .scopes ht))

/-- What the scopes are after a first request for them, they were before. -/
theorem ServedScopes.of_findAll_before {first scopes : List Scope}
    (h : ServedScopes w' scopes) (hall : Exec sem Scope.findAll w (.ok first) w') :
    ServedScopes w scopes := by
  have hdb : w'.db = w.db := db_of_touches (Scope.findAll_touches) hall
  rcases Scope.findAll_cases hall with ⟨rfl, -⟩ | ⟨hrows, hcached⟩
  · exact h
  · rcases h with h | h
    · rw [hcached] at h
      cases h
      exact .inr hrows
    · exact .inr (h.trans (congrFun hdb _))

theorem exec_newSecret {b : Bool} {secret : Option Bytes}
    (h : Exec sem (found.newSecret data b) w (.ok secret) w') :
    Frame [] [] w w' ∧ (found.confidential = true → b = true → secret = found.secret) ∧
      (b = false → secret = none) := by
  refine ⟨(Client.newSecret_touches data found b).frame h, fun hf hb => ?_, fun hb => ?_⟩
  · rw [Client.newSecret, if_pos hb, if_pos hf] at h
    exact Except.ok.inj (exec_ret.mp h).1
  · rw [Client.newSecret, if_neg (by simp [hb])] at h
    exact Except.ok.inj (exec_ret.mp h).1

/-- The condition: the request says what the origins are, or there were none. -/
def UpdateClientRequest.SaysOrigins (req : UpdateClientRequest) (found : Client) : Prop :=
  req.allowedOrigins.isSome = true ∨ found.allowedOrigins = none

theorem origins_iff : (req.allowedOrigins.map (Text.join ",")).or found.allowedOrigins =
    req.allowedOrigins.map (Text.join ",") ↔ req.SaysOrigins found := by
  rw [UpdateClientRequest.SaysOrigins]
  rcases req.allowedOrigins with - | origins <;> simp

/-- **An update stores what was requested** exactly if the request has a list of origins or the
client had none. -/
theorem update_client_iff (h : Exec sem (updateClient data id req) w (.ok c) w') :
    ∃ found, FoundClient w id found ∧
      (req.Written w found c ∧ c.StoredIn w' ∧
        w'.db .clients = replaceRow Client.id c (w.db .clients) ↔ req.SaysOrigins found) := by
  obtain ⟨found, w₁, hfind, h₁⟩ := exec_bind_ok.mp h
  obtain ⟨hfound, hframe₁⟩ := exec_find_found hfind
  obtain ⟨_, w₁', hthrow, h₂⟩ := exec_bind_ok.mp h₁
  obtain ⟨hid, rfl⟩ := exec_throwIf_ok.mp hthrow
  obtain ⟨secret, w₂, hsecret, h₃⟩ := exec_bind_ok.mp h₂
  obtain ⟨hframe₂, hkept, hcleared⟩ := exec_newSecret hsecret
  obtain ⟨scopes, w₃, hscopes, h₄⟩ := exec_bind_ok.mp h₃
  obtain ⟨defaultScopes, w₄, hdefault, h₅⟩ := exec_bind_ok.mp h₄
  obtain ⟨_, w₅, hsave, h₆⟩ := exec_bind_ok.mp h₅
  obtain ⟨hc, rfl⟩ := exec_ret.mp h₆
  obtain ⟨hstored, hrows⟩ := Client.save_stored hsave
  obtain ⟨s₁, hall₁, rfl⟩ := Client.sanitizeScopes_ok.mp hscopes
  obtain ⟨s₂, hall₂, rfl⟩ := Client.sanitizeScopes_ok.mp hdefault
  have hserved : ∀ s, ServedScopes w₂ s → ServedScopes w s := fun s hs =>
    (hs.of_frame hframe₂ (by simp) (by simp)).of_frame hframe₁ (by simp) (by simp)
  have hserved₁ := hserved s₁ (.of_findAll hall₁)
  have hserved₂ := hserved s₂ ((ServedScopes.of_findAll hall₂).of_findAll_before hall₁)
  have hdb : w₄.db .clients = w.db .clients := by
    have h₄ : w₄.db = w₃.db := db_of_touches Scope.findAll_touches hall₂
    have h₃ : w₃.db = w₂.db := db_of_touches Scope.findAll_touches hall₁
    rw [h₄, h₃, hframe₂.db _ (by simp), hframe₁.db _ (by simp)]
  rw [hdb] at hrows
  have hc := Except.ok.inj hc
  refine ⟨found, hfound, ?_⟩
  rw [← origins_iff]
  constructor
  · rintro ⟨hwritten, -, -⟩
    have horigins := hwritten.allowedOrigins
    rw [hc] at horigins
    exact horigins
  · intro horigins
    subst hc
    refine ⟨⟨?_, rfl, rfl, hkept, hcleared, rfl, rfl, horigins, rfl, rfl, rfl, rfl, rfl, rfl, rfl,
      ⟨s₁, hserved₁, rfl⟩, ⟨s₂, hserved₂, rfl⟩, rfl, rfl, rfl, rfl⟩, hstored, hrows⟩
    exact Decidable.not_not.mp hid

end

/-! ### A client that keeps its origins -/

/-- The client `app`, which other origins may call. -/
def originWorld : World where
  clock := 0
  issued := []
  db := Function.update (Function.update (fun _ => []) .scopes
      [(⟨"s1", "openid", none, none⟩ : Scope)])
    .clients [({ sampleClient with allowedOrigins := some "https://old.example" } : Client)]
  cache := fun _ _ => none

/-- The request of the admin UI, where the fields of the origins may be empty. -/
def originRequest (allowedOrigins : Option (List String)) : UpdateClientRequest where
  id := "app"
  name := none
  confidential := false
  redirectUris := ["https://app/callback"]
  postLogoutRedirectUris := none
  allowedOrigins := allowedOrigins
  enabled := true
  flowsEnabled := ["authorization_code"]
  accessTokenAlg := "EdDSA"
  idTokenAlg := "EdDSA"
  refreshToken := false
  authCodeLifetime := 60
  accessTokenLifetime := 1800
  scopes := ["openid"]
  defaultScopes := ["openid"]
  challenges := some ["S256"]
  forceMfa := false
  clientUri := none
  contacts := none

theorem exec_originRequest {origins : Option (List String)}
    (ho : origins = none ∨ origins = some ["https://new.example"]) :
    ∃ c w', Exec sem (updateClient sampleState "app" (originRequest origins)) originWorld (.ok c) w' ∧
      c.allowedOrigins = (origins.map (Text.join ",")).or (some "https://old.example") := by
  obtain ⟨r, w', hx, hr⟩ := Pool.exists_exec_of_choices Op.run
    (updateClient sampleState "app" (originRequest origins))
    [.miss, .ok, .ok, .miss, .ok, .ok, .miss, .ok, .ok, .ok, .ok, .ok, .ok] originWorld
    (fun r _ => r.toOption.any fun c =>
      c.allowedOrigins == (origins.map (Text.join ",")).or (some "https://old.example"))
    (by rcases ho with rfl | rfl <;> decide +kernel)
  rcases r with e | c
  · cases hr
  · exact ⟨c, w', hx, beq_iff_eq.mp hr⟩

/-- The origins are replaced if there are some in the request. -/
theorem update_client_iff_origins :
    ∃ c w', Exec sem (updateClient sampleState "app" (originRequest (some ["https://new.example"])))
        originWorld (.ok c) w' ∧ ∃ found, FoundClient originWorld "app" found ∧
      ((originRequest (some ["https://new.example"])).Written originWorld found c ∧ c.StoredIn w' ∧
        w'.db .clients = replaceRow Client.id c (originWorld.db .clients) ↔
          (originRequest (some ["https://new.example"])).SaysOrigins found) := by
  obtain ⟨c, w', h, -⟩ := exec_originRequest (.inr rfl)
  exact ⟨c, w', h, update_client_iff h⟩

/-- The origins that a request leaves out stay allowed. -/
theorem old_origins_stay :
    ¬ ∀ (data : AppState) (w w' : World) (id : String) (req : UpdateClientRequest) (c : Client),
      Exec sem (updateClient data id req) w (.ok c) w' →
      ∃ found, FoundClient w id found ∧ req.Written w found c ∧ c.StoredIn w' ∧
        w'.db .clients = replaceRow Client.id c (w.db .clients) := by
  intro hall
  obtain ⟨c, w', h, horigins⟩ := exec_originRequest (.inl rfl)
  obtain ⟨found, -, hwritten, -⟩ := hall _ _ _ _ _ _ h
  rw [hwritten.allowedOrigins] at horigins
  cases horigins

end Rauthy
