/-
Rauthy/Columns.lean

Lists that are stored as one text with commas: what a request brings in is joined, and split
and trimmed when it is read.  Users and clients name only roles, groups and scopes that
exist: `sanitize` goes through the existing ones and keeps those that were asked for.

Main result: `columns_read_back`.  What is stored without a comma in its elements is read
back: addresses as they were given, names in the order of their table.
-/
import Rauthy.Renames

namespace Rauthy

open Prog

/-! ### Joining and reading -/

section Texts

variable {l names wanted : List String}

/-- No element is split when the text is read. -/
def NoComma (l : List String) : Prop := ∀ s ∈ l, ',' ∉ s.toList

theorem trim_of_noSpace {s : String} (h : NoSpace s) : Text.trim s = s := by
  rw [← String.toList_inj, Text.toList_trim]
  exact Csv.trim_of_no_blank h

theorem split_join_comma (hl : l ≠ []) (hc : NoComma l) : Text.split ',' (Text.join "," l) = l :=
  Text.split_join hl hc

/-- **Reading what was joined.** -/
theorem read_join (hl : l ≠ []) (hc : NoComma l) (hspace : ∀ s ∈ l, NoSpace s) :
    (Text.split ',' (Text.join "," l)).map Text.trim = l := by
  rw [split_join_comma hl hc]
  conv_rhs => rw [← List.map_id l]
  exact List.map_congr_left fun s hs => trim_of_noSpace (hspace s hs)

theorem toList_foldl_names (res : String) (l : List String) :
    (l.foldl (fun res n => res ++ n ++ ",") res).toList =
      res.toList ++ l.flatMap fun n => n.toList ++ [','] := by
  induction l generalizing res with
  | nil => simp
  | cons n l ih =>
      rw [List.foldl_cons, ih, String.toList_append, String.toList_append, List.flatMap_cons]
      simp

/-- The last comma is dropped from the names that were collected. -/
theorem removeLast_pushNames (h : names.filter (· ∈ wanted) ≠ []) :
    removeLast (pushNames names wanted) = Text.join "," (names.filter (· ∈ wanted)) := by
  have hdrop : ∀ l : List String, l ≠ [] →
      (l.flatMap fun n => n.toList ++ [',']).dropLast = [','].intercalate (l.map String.toList) := by
    intro l hl
    induction l with
    | nil => exact absurd rfl hl
    | cons n l ih =>
        rcases l with - | ⟨m, l⟩
        · simp
        · rw [List.flatMap_cons, List.dropLast_append_of_ne_nil (by simp), ih (by simp),
            List.map_cons, List.map_cons, List.map_cons, List.intercalate_cons_cons]
  rw [← String.toList_inj, Text.toList_join, removeLast, String.toList_ofList, pushNames,
    toList_foldl_names]
  exact hdrop _ h

theorem pushNames_eq_empty : pushNames names wanted = "" ↔ names.filter (· ∈ wanted) = [] := by
  rw [← String.toList_inj, pushNames, toList_foldl_names]
  rcases names.filter (· ∈ wanted) with - | ⟨n, l⟩ <;> simp

theorem join_ne_empty (hl : l ≠ []) (hne : ∀ s ∈ l, s.toList ≠ []) : Text.join "," l ≠ "" := by
  intro h
  rw [← String.toList_inj, Text.toList_join, String.toList_empty] at h
  rcases l with - | ⟨s, l⟩
  · exact hl rfl
  · rcases l with - | ⟨t, l⟩
    · rw [List.map_singleton, List.intercalate_singleton] at h
      exact hne s List.mem_cons_self h
    · rw [List.map_cons, List.map_cons, List.intercalate_cons_cons, List.append_assoc,
        List.append_eq_nil_iff] at h
      exact hne s List.mem_cons_self h.1

end Texts

/-! ### Addresses of clients -/

section Uris

variable {uris : List String}

theorem read_uris (hv : validateVecUri uris = true) (hl : uris ≠ []) (hc : NoComma uris) :
    (Text.split ',' (Text.join "," uris)).map Text.trim = uris :=
  read_join hl hc fun s hs => noSpace_of_reUri (List.all_eq_true.mp hv s hs)

theorem read_uris_option {opt : Option (List String)} (ho : opt = some uris)
    (hv : validateVecUri uris = true) (hl : uris ≠ []) (hc : NoComma uris) :
    (opt.map (Text.join ",")).map (fun t => (Text.split ',' t).map Text.trim) = some uris := by
  rw [ho, Option.map_some, Option.map_some, read_uris hv hl hc]

end Uris

/-! ### Names that exist -/

section Names

variable {w w' : World} {wanted names : List String}

/-- The names that were asked for are read back, in the order of their table. -/
theorem read_pushNames (hv : validateVecGroups wanted = true) (hc : NoComma wanted)
    (hl : names.filter (· ∈ wanted) ≠ []) :
    removeLast (pushNames names wanted) ≠ "" ∧
      (Text.split ',' (removeLast (pushNames names wanted))).map Text.trim =
        names.filter (· ∈ wanted) := by
  have hin : ∀ s ∈ names.filter (· ∈ wanted), s ∈ wanted := fun s hs =>
    of_decide_eq_true (List.mem_filter.mp hs).2
  have hre : ∀ s ∈ names.filter (· ∈ wanted), reGroups s = true := fun s hs =>
    List.all_eq_true.mp hv s (hin s hs)
  rw [removeLast_pushNames hl]
  refine ⟨join_ne_empty hl fun s hs => ne_nil_of_reGroups (hre s hs), ?_⟩
  exact read_join hl (fun s hs => hc s (hin s hs)) fun s hs => noSpace_of_reGroups (hre s hs)

theorem Role.sanitize_read {r : String} (hv : validateVecGroups wanted = true)
    (hc : NoComma wanted) (h : Exec sem (Role.sanitize wanted) w (.ok r) w') :
    ∃ roles, Exec sem Role.findAll w (.ok roles) w' ∧ ∀ u : User,
      ({ u with roles := r } : User).getRoles = (roles.map Role.name).filter (· ∈ wanted) := by
  obtain ⟨roles, w₁, hall, hret, rfl⟩ := exec_bind_ok.mp h
  cases hret
  refine ⟨roles, hall, fun u => ?_⟩
  unfold User.getRoles
  dsimp only
  by_cases hnil : (roles.map Role.name).filter (· ∈ wanted) = []
  · rw [if_pos (pushNames_eq_empty.mpr hnil), if_pos (pushNames_eq_empty.mpr hnil), hnil]
  · obtain ⟨hne, hread⟩ := read_pushNames hv hc hnil
    rw [if_neg fun h => hnil (pushNames_eq_empty.mp h), if_neg hne]
    exact hread

theorem Group.sanitize_read {g : Option String} (hv : validateVecGroups wanted = true)
    (hc : NoComma wanted) (h : Exec sem (Group.sanitize (some wanted)) w (.ok g) w') :
    ∃ groups, Exec sem Group.findAll w (.ok groups) w' ∧ ∀ u : User,
      ({ u with groups := g } : User).getGroups = (groups.map Group.name).filter (· ∈ wanted) := by
  obtain ⟨groups, w₁, hall, hret, rfl⟩ := exec_bind_ok.mp h
  cases hret
  refine ⟨groups, hall, fun u => ?_⟩
  unfold User.getGroups
  dsimp only
  by_cases hnil : (groups.map Group.name).filter (· ∈ wanted) = []
  · rw [if_pos (pushNames_eq_empty.mpr hnil), hnil]
  · obtain ⟨-, hread⟩ := read_pushNames hv hc hnil
    rw [if_neg fun h => hnil (pushNames_eq_empty.mp h)]
    exact hread

/-- The scopes of a client: `openid` is put in front if it was not asked for. -/
def withOpenid (names : List String) : List String :=
  if "openid" ∈ names then names else "openid" :: names

/-- No other scope has `openid` in its name. -/
def OpenidApart (wanted : List String) : Prop :=
  ∀ s ∈ wanted, Text.contains s "openid" = true → s = "openid"

theorem contains_join_openid {l : List String} (hl : l ≠ []) (hc : NoComma l) (ho : OpenidApart l) :
    Text.contains (Text.join "," l) "openid" = true ↔ "openid" ∈ l := by
  have hcomma : ',' ∉ "openid".toList := by decide
  rw [Text.contains_iff, Csv.infix_iff_splitOn hcomma]
  have hcells : (Text.join "," l).toList.splitOn ',' = l.map String.toList := by
    have h := congrArg (List.map String.toList) (split_join_comma hl hc)
    rwa [Text.split_eq, List.map_map, List.map_id''] at h
    exact fun a => String.toList_ofList
  rw [hcells]
  constructor
  · rintro ⟨a, ha, hin⟩
    obtain ⟨s, hs, rfl⟩ := List.mem_map.mp ha
    rwa [← ho s hs (Text.contains_iff.mpr hin)]
  · intro hs
    exact ⟨_, List.mem_map_of_mem hs, List.infix_rfl⟩

theorem Client.sanitizeScopes_read {r : String} (hv : validateVecGroups wanted = true)
    (hc : NoComma wanted) (ho : OpenidApart wanted)
    (h : Exec sem (Client.sanitizeScopes wanted) w (.ok r) w') :
    ∃ scopes, Exec sem Scope.findAll w (.ok scopes) w' ∧ ∀ c : Client,
      ({ c with scopes := r } : Client).getScopes =
        withOpenid ((scopes.map Scope.name).filter (· ∈ wanted)) := by
  obtain ⟨scopes, w₁, hall, hret, rfl⟩ := exec_bind_ok.mp h
  cases hret
  refine ⟨scopes, hall, fun c => ?_⟩
  unfold Client.getScopes withOpenid
  dsimp only
  by_cases hnil : (scopes.map Scope.name).filter (· ∈ wanted) = []
  · have hempty := pushNames_eq_empty.mpr hnil
    rw [if_pos hempty, if_pos hempty, hnil]
    decide
  obtain ⟨hne, hread⟩ := read_pushNames hv hc hnil
  have hin : ∀ s ∈ (scopes.map Scope.name).filter (· ∈ wanted), s ∈ wanted := fun s hs =>
    of_decide_eq_true (List.mem_filter.mp hs).2
  have hopenid := contains_join_openid hnil (fun s hs => hc s (hin s hs))
    fun s hs => ho s (hin s hs)
  rw [← removeLast_pushNames hnil] at hopenid
  rw [if_neg fun h => hnil (pushNames_eq_empty.mp h), if_neg hne]
  by_cases hmem : "openid" ∈ (scopes.map Scope.name).filter (· ∈ wanted)
  · rw [if_pos hmem, if_neg (by simp [hopenid.mpr hmem])]
    exact hread
  · have hnot : (!Text.contains (removeLast (pushNames (scopes.map Scope.name) wanted)) "openid") =
        true := by
      rw [Bool.not_eq_true', ← Bool.not_eq_true]
      exact fun h => hmem (hopenid.mp h)
    have hsplit : ∀ t : String, Text.split ',' ("openid," ++ t) = "openid" :: Text.split ',' t := by
      intro t
      have hlist : ("openid," ++ t).toList = "openid".toList ++ ',' :: t.toList := by
        rw [String.toList_append]
        rfl
      rw [Text.split_eq, Text.split_eq, hlist, Csv.splitOn_more (by decide), List.map_cons,
        String.ofList_toList]
    rw [if_neg hmem, if_pos hnot, hsplit, List.map_cons, hread]
    exact congrArg (· :: _) (by decide)

end Names

/-- Addresses that a request may bring in, of which no one is split. -/
def Uris (uris : List String) : Prop := validateVecUri uris = true ∧ uris ≠ [] ∧ NoComma uris

/-- Names that a request may bring in, of which no one is split. -/
def RequestNames (names : List String) : Prop := validateVecGroups names = true ∧ NoComma names

/-- **Columns.**  The addresses of clients are read back as they were given, whether a client is
created, registered or updated.  Of the names, those that exist are read back. -/
theorem columns_read_back (data : AppState) :
    (∀ (req : NewClientRequest) secret kid,
      (Uris req.redirectUris → (req.client secret kid).getRedirectUris = req.redirectUris) ∧
      ∀ uris, req.postLogoutRedirectUris = some uris → Uris uris →
        (req.client secret kid).getPostLogoutUris = some uris) ∧
    (∀ (req : DynamicClientRequest) (c : Client) w w',
      Exec sem (Client.tryFromDynReg data req) w (.ok c) w' → Uris req.redirectUris →
        c.getRedirectUris = req.redirectUris) ∧
    (∀ (id : String) (req : UpdateClientRequest) (c : Client) w w',
      Exec sem (updateClient data id req) w (.ok c) w' →
        (Uris req.redirectUris → c.getRedirectUris = req.redirectUris) ∧
        (∀ uris, req.postLogoutRedirectUris = some uris → Uris uris →
          c.getPostLogoutUris = some uris) ∧
        (∀ uris, req.allowedOrigins = some uris → Uris uris →
          c.getAllowedOrigins = some uris)) ∧
    (∀ (rls : List String) (r : String) w w', RequestNames rls →
      Exec sem (Role.sanitize rls) w (.ok r) w' →
        ∃ roles, Exec sem Role.findAll w (.ok roles) w' ∧ ∀ u : User,
          ({ u with roles := r } : User).getRoles = (roles.map Role.name).filter (· ∈ rls)) ∧
    (∀ (gs : List String) (g : Option String) w w', RequestNames gs →
      Exec sem (Group.sanitize (some gs)) w (.ok g) w' →
        ∃ groups, Exec sem Group.findAll w (.ok groups) w' ∧ ∀ u : User,
          ({ u with groups := g } : User).getGroups = (groups.map Group.name).filter (· ∈ gs)) ∧
    ∀ (scps : List String) (r : String) w w', RequestNames scps → OpenidApart scps →
      Exec sem (Client.sanitizeScopes scps) w (.ok r) w' →
        ∃ scopes, Exec sem Scope.findAll w (.ok scopes) w' ∧ ∀ c : Client,
          ({ c with scopes := r } : Client).getScopes =
            withOpenid ((scopes.map Scope.name).filter (· ∈ scps)) := by
  refine ⟨?_, ?_, ?_, ?_, ?_, ?_⟩
  · intro req secret kid
    refine ⟨fun ⟨hv, hl, hc⟩ => read_uris hv hl hc, fun uris ho ⟨hv, hl, hc⟩ => ?_⟩
    exact read_uris_option ho hv hl hc
  · rintro req c w w' h ⟨hv, hl, hc⟩
    obtain ⟨_, w₁, -, h₁⟩ := exec_bind_ok.mp h
    obtain ⟨_, w₂, -, hret, -⟩ := exec_bind_ok.mp h₁
    cases hret
    exact read_uris hv hl hc
  · intro id req c w w' h
    obtain ⟨_, w₁, -, h₁⟩ := exec_bind_ok.mp h
    obtain ⟨_, w₂, -, h₂⟩ := exec_bind_ok.mp h₁
    obtain ⟨_, w₃, -, h₃⟩ := exec_bind_ok.mp h₂
    obtain ⟨_, w₄, -, h₄⟩ := exec_bind_ok.mp h₃
    obtain ⟨_, w₅, -, h₅⟩ := exec_bind_ok.mp h₄
    obtain ⟨_, w₆, -, hret, -⟩ := exec_bind_ok.mp h₅
    cases hret
    refine ⟨fun ⟨hv, hl, hc⟩ => read_uris hv hl hc, fun uris ho ⟨hv, hl, hc⟩ =>
      read_uris_option ho hv hl hc, fun uris ho ⟨hv, hl, hc⟩ => ?_⟩
    show ((req.allowedOrigins.map (Text.join ",")).or _).map _ = some uris
    rw [ho, Option.map_some, Option.some_or, Option.map_some, read_uris hv hl hc]
  · exact fun rls r w w' hn h => Role.sanitize_read hn.1 hn.2 h
  · exact fun gs g w w' hn h => Group.sanitize_read hn.1 hn.2 h
  · exact fun scps r w w' hn ho h => Client.sanitizeScopes_read hn.1 hn.2 ho h

/-- Two addresses of a new client. -/
theorem columns_read_back_two :
    (NewClientRequest.client ⟨"app", none, false, ["https://a.b/?x=1", "https://c.d"], none⟩
      none none).getRedirectUris = ["https://a.b/?x=1", "https://c.d"] :=
  ((columns_read_back sampleState).1 ⟨"app", none, false, ["https://a.b/?x=1", "https://c.d"], none⟩
    none none).1 ⟨by decide, by decide, by
      show ∀ s ∈ _, _
      decide⟩

/-- A role that does not exist is not read back. -/
theorem unknown_role_dropped :
    ¬ ∀ (rls : List String) (r : String) (w w' : World), validateVecGroups rls = true →
      Exec sem (Role.sanitize rls) w (.ok r) w' →
      ∀ u : User, ({ u with roles := r } : User).getRoles = rls := by
  intro hall
  obtain ⟨r, w', hx, hr⟩ := Pool.exists_exec_of_choices Op.run (Role.sanitize ["admin", "ghost"])
    [.miss, .ok, .ok] (roleWorld "admin" "admin")
    (fun r _ => r.toOption == some "admin") (by decide +kernel)
  rcases r with e | r
  · cases hr
  obtain rfl : r = "admin" := Option.some.inj (beq_iff_eq.mp hr)
  have hroles := hall ["admin", "ghost"] "admin" _ w' (by decide) hx sampleUser
  exact absurd hroles (by decide)

end Rauthy
