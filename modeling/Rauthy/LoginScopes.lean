/-
Rauthy/LoginScopes.lean

The scopes of a login: the default scopes of the client, and of the requested ones those that
the client may have.  A device names its scopes in one text with blanks.  In both places a
name is searched for in the whole text of the client's scopes.

Main result: `login_scopes_iff`, when this is the same as looking it up among the elements.
-/
import Rauthy.Devices
import Rauthy.Validation

namespace Rauthy

open Prog

namespace Client

/-- The name is an element of the client's scopes. -/
def HasScope (c : Client) (s : String) : Prop := s ∈ Text.split ',' c.scopes

def HasDefaultScope (c : Client) (s : String) : Prop := s ∈ Text.split ',' c.defaultScopes

instance (c : Client) (s : String) : Decidable (c.HasScope s) :=
  inferInstanceAs (Decidable (s ∈ _))

instance (c : Client) (s : String) : Decidable (c.HasDefaultScope s) :=
  inferInstanceAs (Decidable (s ∈ _))

/-- The search in the texts finds the requested name just if it is an allowed element: one that
the text of the default scopes contains is left out, one that only the text of the scopes
contains is granted. -/
def FindsRightly (c : Client) (s : String) : Prop :=
  c.HasDefaultScope s ∨
    if Text.contains c.defaultScopes s = true then ¬ c.HasScope s
    else Text.contains c.scopes s = true → c.HasScope s

end Client

section Login

variable {text s : String}

theorem contains_of_mem_split (h : s ∈ Text.split ',' text) : Text.contains text s = true := by
  rw [Text.split_eq, List.mem_map] at h
  obtain ⟨a, ha, rfl⟩ := h
  rw [Text.contains_iff, String.toList_ofList]
  exact (Csv.infix_iff_splitOn (Csv.not_mem_of_mem_splitOn ha)).mpr ⟨a, ha, List.infix_rfl⟩

theorem mem_sanitizeLoginScopes {c : Client} {rs : List String} :
    s ∈ c.sanitizeLoginScopes (some rs) ↔ c.HasDefaultScope s ∨
      s ∈ rs ∧ ¬ Text.contains c.defaultScopes s = true ∧ Text.contains c.scopes s = true := by
  unfold Client.sanitizeLoginScopes Client.HasDefaultScope
  simp

/-- **The scopes of a login** with requested ones. -/
theorem sanitizeLoginScopes_iff (c : Client) (rs : List String) :
    (∀ s, s ∈ c.sanitizeLoginScopes (some rs) ↔ c.HasDefaultScope s ∨ s ∈ rs ∧ c.HasScope s) ↔
      ∀ s ∈ rs, c.FindsRightly s := by
  simp only [mem_sanitizeLoginScopes]
  constructor
  · intro h s hs
    have h := h s
    unfold Client.FindsRightly
    by_cases hd : c.HasDefaultScope s
    · exact .inl hd
    right
    split
    · next hin =>
        intro hscope
        rcases h.mpr (.inr ⟨hs, hscope⟩) with hd' | ⟨-, hnot, -⟩
        · exact hd hd'
        · exact hnot hin
    · next hin =>
        intro hcont
        rcases h.mp (.inr ⟨hs, hin, hcont⟩) with hd' | ⟨-, hscope⟩
        · exact absurd hd' hd
        · exact hscope
  · intro h s
    refine or_congr_right' fun hd => and_congr_right fun hs => ?_
    have hs := (h s hs).resolve_left hd
    split at hs
    · next hin => exact iff_of_false (fun h => h.1 hin) hs
    · next hin => exact ⟨fun h => hs h.2, fun h => ⟨hin, contains_of_mem_split h⟩⟩

end Login

/-! ### Devices -/

section Devices

variable {data : AppState} {payload : DeviceGrantRequest} {c : Client}

/-- The scopes that the device names. -/
def DeviceGrantRequest.scopes (payload : DeviceGrantRequest) : List String :=
  payload.scope.toList.flatMap (Text.split ' ')

/-- The request is refused because of its scopes. -/
def DeviceAuthAnswer.RefusesScope : DeviceAuthAnswer → Prop
  | .error _ e _ => e = .invalidScope
  | .ok _ => False

/-- The checks of the client do not stumble over the scopes. -/
def AcceptsScope (data : AppState) (c : Client) (payload : DeviceGrantRequest) : Prop :=
  ∀ a, checkDeviceClient data c payload = some a → ¬ a.RefusesScope

theorem acceptsScope_iff (hen : c.enabled = true)
    (hflow : c.validateFlow grantTypeDeviceCodeName = .ok ()) :
    AcceptsScope data c payload ↔ ∀ s ∈ payload.scopes, Text.contains c.scopes s = true := by
  -- what is left after the scopes refuses none of them
  obtain ⟨rest, hrest, hcheck⟩ : ∃ rest : Option DeviceAuthAnswer,
      (∀ a, rest = some a → ¬ a.RefusesScope) ∧ checkDeviceClient data c payload =
        if payload.scopes.any (fun s => !Text.contains c.scopes s) then
          some (.error 500 .invalidScope ("Allowed scopes: " ++ c.scopes))
        else rest := by
    unfold checkDeviceClient
    rw [if_neg (by simp [hen]), hflow]
    refine ⟨_, fun a ha href => ?_, rfl⟩
    split at ha
    · split at ha
      · cases ha
        cases href
      · cases ha
    · cases ha
  unfold AcceptsScope
  rw [hcheck]
  by_cases hany : payload.scopes.any (fun s => !Text.contains c.scopes s) = true
  · rw [if_pos hany]
    refine iff_of_false (fun h => h _ rfl rfl) fun h => ?_
    obtain ⟨s, hs, hnot⟩ := List.any_eq_true.mp hany
    rw [h s hs] at hnot
    cases hnot
  · rw [if_neg hany]
    refine iff_of_true hrest fun s hs => ?_
    by_contra hnot
    exact hany (List.any_eq_true.mpr ⟨s, hs, by simpa using hnot⟩)

/-- **The scopes of a device**: a scope that is contained in the client's text only decides if no
other one is missing. -/
theorem deviceScopes_iff (hen : c.enabled = true)
    (hflow : c.validateFlow grantTypeDeviceCodeName = .ok ()) :
    (AcceptsScope data c payload ↔ ∀ s ∈ payload.scopes, c.HasScope s) ↔
      (∃ s ∈ payload.scopes, ¬ Text.contains c.scopes s = true) ∨
        ∀ s ∈ payload.scopes, Text.contains c.scopes s = true → c.HasScope s := by
  rw [acceptsScope_iff hen hflow]
  constructor
  · intro h
    by_cases hall : ∀ s ∈ payload.scopes, Text.contains c.scopes s = true
    · exact .inr fun s hs _ => h.mp hall s hs
    · obtain ⟨s, hs⟩ := not_forall.mp hall
      obtain ⟨hs, hnot⟩ := Classical.not_imp.mp hs
      exact .inl ⟨s, hs, hnot⟩
  · rintro (⟨s, hs, hnot⟩ | h)
    · exact iff_of_false (fun h => hnot (h s hs)) fun h => hnot (contains_of_mem_split (h s hs))
    · exact ⟨fun hall s hs => h s hs (hall s hs), fun hall s hs => contains_of_mem_split (hall s hs)⟩

/-- The request is answered with a code. -/
def DeviceAuthAnswer.IsCode : DeviceAuthAnswer → Prop
  | .ok _ => True
  | .error _ _ _ => False

/-- What `post_device_auth` does once it has found the client. -/
def answerDevice (data : AppState) (c : Client) (payload : DeviceGrantRequest) :
    M ErrorResponse DeviceAuthAnswer :=
  match checkDeviceClient data c payload with
  | some a => return a
  | none => createDeviceCode data c payload

variable {w w' : World} {req : HttpRequest} {a : DeviceAuthAnswer}

theorem checkRateLimit_error (h : Exec sem (checkRateLimit data req) w (.ok (some a)) w') :
    ¬ a.IsCode ∧ ¬ a.RefusesScope := by
  unfold checkRateLimit at h
  split at h
  · cases h.1
  split at h
  · cases h.1
    exact ⟨id, fun href => by cases href⟩
  obtain ⟨limited, w₁, -, h₁⟩ := exec_bind_ok.mp h
  rcases limited with - | dt
  · obtain ⟨_, w₂, -, hret, -⟩ := exec_bind_ok.mp h₁
    cases hret
  · cases h₁.1
    exact ⟨id, fun href => by cases href⟩

theorem createDeviceCode_error (h : Exec sem (createDeviceCode data c payload) w (.ok a) w') :
    ¬ a.RefusesScope := by
  obtain ⟨r, w₁, -, h₁⟩ := exec_bind_ok.mp h
  rcases r with e | code
  · cases h₁.1
    exact fun href => by cases href
  · obtain ⟨_, w₂, -, hret, -⟩ := exec_bind_ok.mp h₁
    cases hret
    exact id

/-- A code, or a refusal of the scopes, is the answer to a client that has been found. -/
theorem exec_postDeviceAuth (ha : a.IsCode ∨ a.RefusesScope) :
    Exec sem (postDeviceAuth data req payload) w (.ok a) w' ↔
      ∃ c w₁ w₂, Exec sem (checkRateLimit data req) w (.ok none) w₁ ∧
        Exec sem (Client.find payload.clientId) w₁ (.ok c) w₂ ∧
        Exec sem (answerDevice data c payload) w₂ (.ok a) w' := by
  constructor
  · intro h
    obtain ⟨limited, w₁, hlimit, h₁⟩ := exec_bind_ok.mp h
    rcases limited with - | b
    swap
    · cases h₁.1
      obtain ⟨hcode, href⟩ := checkRateLimit_error hlimit
      exact absurd ha (not_or.mpr ⟨hcode, href⟩)
    obtain ⟨found, w₂, hfind, h₂⟩ := exec_bind_ok.mp h₁
    rcases found with e | c
    · cases h₂.1
      rcases ha with ha | ha
      · cases ha
      · cases ha
    · exact ⟨c, w₁, w₂, hlimit, exec_tried.mp hfind, h₂⟩
  · rintro ⟨c, w₁, w₂, hlimit, hfind, hanswer⟩
    refine exec_bind_ok.mpr ⟨none, w₁, hlimit, exec_bind_ok.mpr ⟨.ok c, w₂, ?_, hanswer⟩⟩
    exact exec_tried.mpr hfind

theorem answerDevice_checked (ha : a.IsCode ∨ a.RefusesScope)
    (h : Exec sem (answerDevice data c payload) w (.ok a) w') :
    c.enabled = true ∧ c.validateFlow grantTypeDeviceCodeName = .ok () ∧
      (¬ a.RefusesScope ↔ AcceptsScope data c payload) := by
  have hpassed : ∀ x, checkDeviceClient data c payload = some x → x.IsCode ∨ x.RefusesScope →
      c.enabled = true ∧ c.validateFlow grantTypeDeviceCodeName = .ok () := by
    intro x hx hax
    unfold checkDeviceClient at hx
    split at hx
    · cases hx
      rcases hax with hax | hax
      · cases hax
      · cases hax
    next hen =>
      split at hx
      · cases hx
        rcases hax with hax | hax
        · cases hax
        · cases hax
      · next hflow => exact ⟨by simpa using hen, hflow⟩
  unfold answerDevice at h
  rcases hcheck : checkDeviceClient data c payload with - | x
  · -- nothing is wrong with the client
    rw [hcheck] at h
    have hen : c.enabled = true := by
      unfold checkDeviceClient at hcheck
      split at hcheck
      · cases hcheck
      · next hen => simpa using hen
    have hflow : c.validateFlow grantTypeDeviceCodeName = .ok () := by
      unfold checkDeviceClient at hcheck
      rw [if_neg (by simp [hen])] at hcheck
      split at hcheck
      · cases hcheck
      · next hflow => exact hflow
    refine ⟨hen, hflow, iff_of_true (createDeviceCode_error h) fun y hy => ?_⟩
    rw [hcheck] at hy
    cases hy
  · rw [hcheck] at h
    cases h.1
    obtain ⟨hen, hflow⟩ := hpassed a hcheck ha
    refine ⟨hen, hflow, fun href y hy => ?_, fun hacc => hacc a hcheck⟩
    rw [hcheck] at hy
    cases hy
    exact href

end Devices

/-- **Scopes of logins and of devices** are found as they should be if and only if no name is part
of another one in the wrong place. -/
theorem login_scopes_iff (client : Client) (data : AppState) :
    (∀ s, s ∈ client.sanitizeLoginScopes none ↔ client.HasDefaultScope s) ∧
    (∀ rs, (∀ s, s ∈ client.sanitizeLoginScopes (some rs) ↔
        client.HasDefaultScope s ∨ s ∈ rs ∧ client.HasScope s) ↔ ∀ s ∈ rs, client.FindsRightly s) ∧
    ∀ req payload a w w', a.IsCode ∨ a.RefusesScope →
      (Exec sem (postDeviceAuth data req payload) w (.ok a) w' ↔
        ∃ c w₁ w₂, Exec sem (checkRateLimit data req) w (.ok none) w₁ ∧
          Exec sem (Client.find payload.clientId) w₁ (.ok c) w₂ ∧
          Exec sem (answerDevice data c payload) w₂ (.ok a) w') ∧
      ∀ c w₂, Exec sem (answerDevice data c payload) w₂ (.ok a) w' →
        ((¬ a.RefusesScope ↔ ∀ s ∈ payload.scopes, c.HasScope s) ↔
          (∃ s ∈ payload.scopes, ¬ Text.contains c.scopes s = true) ∨
            ∀ s ∈ payload.scopes, Text.contains c.scopes s = true → c.HasScope s) := by
  refine ⟨fun s => Iff.rfl, sanitizeLoginScopes_iff client, ?_⟩
  intro req payload a w w' ha
  refine ⟨exec_postDeviceAuth ha, fun c w₂ h => ?_⟩
  obtain ⟨hen, hflow, hacc⟩ := answerDevice_checked ha h
  rw [hacc]
  exact deviceScopes_iff hen hflow

/-- A client with the scope `my_email` is granted `email`. -/
theorem part_of_scope_granted :
    ¬ ∀ (c : Client) (rs : List String), validateVecGroups rs = true → ∀ s,
      (s ∈ c.sanitizeLoginScopes (some rs) ↔ c.HasDefaultScope s ∨ s ∈ rs ∧ c.HasScope s) := by
  intro hall
  have h := hall { sampleClient with scopes := "openid,my_email", defaultScopes := "openid" }
    ["email"] (by decide) "email"
  exact absurd (h.mp (by decide)) (by decide)

end Rauthy
