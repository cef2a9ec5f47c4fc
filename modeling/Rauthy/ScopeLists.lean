/-
Rauthy/ScopeLists.lean

`Client::sanitize_scopes` (`rauthy-models/src/entity/clients.rs`): the scopes of a client are
those of the requested ones that exist, in the order of their table, and `openid`.  Whether
`openid` is there already is asked of the joined text, in which the name of any other scope may
contain it.

Main result: `sanitized_scopes_iff`.  The scopes are read back as they should be exactly for the
requests whose existing names survive the joining, and that name `openid` itself if they name a
scope that contains it.
-/
import Rauthy.Columns

namespace Rauthy

open Prog

variable {w w' : World}

/-! ### Reading a joined text -/

section Texts

variable {names wanted : List String}

/-- A cell that is read has no comma in it and no blanks around it. -/
theorem clean_of_mem_read {t s : String} (h : s ∈ (Text.split ',' t).map Text.trim) :
    ',' ∉ s.toList ∧ Text.trim s = s := by
  obtain ⟨cell, hcell, rfl⟩ := List.mem_map.mp h
  have hcomma : ',' ∉ cell.toList := by
    rw [Text.split_eq] at hcell
    obtain ⟨cs, hcs, rfl⟩ := List.mem_map.mp hcell
    rw [String.toList_ofList]
    exact Csv.not_mem_of_mem_splitOn hcs
  constructor
  · rw [Text.toList_trim]
    obtain ⟨u, v, -, -, hsplit⟩ := Csv.exists_trim Text.isWhitespace cell.toList
    intro hin
    apply hcomma
    rw [hsplit]
    simp [hin]
  · rw [← String.toList_inj, Text.toList_trim, Text.toList_trim, Csv.trim_trim]

/-- The substring is looked for in each of the joined names. -/
theorem contains_join {p : String} (hp : ',' ∉ p.toList) {l : List String} (hl : l ≠ [])
    (hc : NoComma l) :
    Text.contains (Text.join "," l) p = true ↔ ∃ s ∈ l, Text.contains s p = true := by
  have hcells : (Text.join "," l).toList.splitOn ',' = l.map String.toList := by
    have h := congrArg (List.map String.toList) (split_join_comma hl hc)
    rwa [Text.split_eq, List.map_map, List.map_id''] at h
    exact fun a => String.toList_ofList
  rw [Text.contains_iff, Csv.infix_iff_splitOn hp, hcells]
  constructor
  · rintro ⟨a, ha, hin⟩
    obtain ⟨s, hs, rfl⟩ := List.mem_map.mp ha
    exact ⟨s, hs, Text.contains_iff.mpr hin⟩
  · rintro ⟨s, hs, hin⟩
    exact ⟨s.toList, List.mem_map_of_mem hs, Text.contains_iff.mp hin⟩

theorem split_openid (t : String) : Text.split ',' ("openid," ++ t) = "openid" :: Text.split ',' t := by
  have hlist : ("openid," ++ t).toList = "openid".toList ++ ',' :: t.toList := by
    rw [String.toList_append]
    rfl
  rw [Text.split_eq, Text.split_eq, hlist, Csv.splitOn_more (by decide), List.map_cons,
    String.ofList_toList]

/-- The text that `Client::sanitize_scopes` stores. -/
def scopeText (names wanted : List String) : String :=
  let res := pushNames names wanted
  let res := if res = "" then res else removeLast res
  if res = "" then "openid" else if !Text.contains res "openid" then "openid," ++ res else res

/-- Names that no comma divides, no trimming changes and that are not empty. -/
def Clean (s : String) : Prop := ',' ∉ s.toList ∧ Text.trim s = s ∧ s ≠ ""

/-- **Reading the scopes**: `openid` is put in front if no name contains it. -/
theorem read_scopeText (h : ∀ s ∈ names.filter (· ∈ wanted), Clean s) :
    (Text.split ',' (scopeText names wanted)).map Text.trim =
      if ∃ s ∈ names.filter (· ∈ wanted), Text.contains s "openid" = true then
        names.filter (· ∈ wanted)
      else "openid" :: names.filter (· ∈ wanted) := by
  by_cases hnil : names.filter (· ∈ wanted) = []
  · have hempty := pushNames_eq_empty.mpr hnil
    have htext : scopeText names wanted = "openid" := by
      rw [scopeText, if_pos hempty, if_pos hempty]
    rw [htext, hnil, if_neg (by simp)]
    decide
  have hc : NoComma (names.filter (· ∈ wanted)) := fun s hs => (h s hs).1
  have hread : (Text.split ',' (Text.join "," (names.filter (· ∈ wanted)))).map Text.trim =
      names.filter (· ∈ wanted) := by
    rw [split_join_comma hnil hc]
    conv_rhs => rw [← List.map_id (names.filter (· ∈ wanted))]
    exact List.map_congr_left fun s hs => (h s hs).2.1
  have hne : Text.join "," (names.filter (· ∈ wanted)) ≠ "" := by
    refine join_ne_empty hnil fun s hs hs₀ => (h s hs).2.2 ?_
    rw [← String.toList_inj, hs₀, String.toList_empty]
  have hcontains := contains_join (p := "openid") (by decide) hnil hc
  rw [scopeText, if_neg fun he => hnil (pushNames_eq_empty.mp he), removeLast_pushNames hnil,
    if_neg hne]
  by_cases hin : ∃ s ∈ names.filter (· ∈ wanted), Text.contains s "openid" = true
  · rw [if_pos hin, if_neg (by simp [hcontains.mpr hin]), hread]
  · have hnot : Text.contains (Text.join "," (names.filter (· ∈ wanted))) "openid" = false :=
      Bool.not_eq_true _ ▸ fun hyes => hin (hcontains.mp hyes)
    rw [if_neg hin, if_pos (by simp [hnot]), split_openid, List.map_cons, hread]
    exact congrArg (· :: _) (by decide)

end Texts

/-! ### The scopes of a client -/

section Sanitized

variable {names wanted l : List String}

/-- `l` are the scopes of a client that asked for `wanted`, where the scopes `names` exist. -/
structure Sanitized (names wanted l : List String) : Prop where
  openid : "openid" ∈ l
  requested : ∀ s ∈ wanted, s ∈ names → s ∈ l
  only : ∀ s ∈ l, s = "openid" ∨ s ∈ wanted ∧ s ∈ names
  nodup : l.Nodup
  nonempty : "" ∉ l

/-- The requested names that exist survive the joining, and if one of them contains `openid` then
`openid` is one of them. -/
structure Joinable (names wanted : List String) : Prop where
  clean : ∀ s ∈ names, s ∈ wanted → Clean s
  nodup : (names.filter (· ∈ wanted)).Nodup
  openid : ∀ s ∈ names, s ∈ wanted → Text.contains s "openid" = true →
    "openid" ∈ names ∧ "openid" ∈ wanted

theorem mem_requested {s : String} : s ∈ names.filter (· ∈ wanted) ↔ s ∈ names ∧ s ∈ wanted := by
  simp

theorem Sanitized.clean {t : String}
    (h : Sanitized names wanted ((Text.split ',' t).map Text.trim)) :
    ∀ s ∈ names, s ∈ wanted → Clean s := by
  intro s hs hwanted
  have hmem := h.requested s hwanted hs
  obtain ⟨hcomma, htrim⟩ := clean_of_mem_read hmem
  exact ⟨hcomma, htrim, fun he => h.nonempty (he ▸ hmem)⟩

theorem sanitized_iff_joinable :
    Sanitized names wanted ((Text.split ',' (scopeText names wanted)).map Text.trim) ↔
      Joinable names wanted := by
  constructor
  · intro h
    have hclean := h.clean
    have hread := read_scopeText fun s hs =>
      hclean s (mem_requested.mp hs).1 (mem_requested.mp hs).2
    have hnodup := h.nodup
    have hopenid := h.openid
    rw [hread] at hnodup hopenid
    refine ⟨hclean, ?_, fun s hs hwanted hin => ?_⟩
    · split at hnodup
      · exact hnodup
      · exact (List.nodup_cons.mp hnodup).2
    · rw [if_pos ⟨s, mem_requested.mpr ⟨hs, hwanted⟩, hin⟩] at hopenid
      exact mem_requested.mp hopenid
  · intro h
    have hread := read_scopeText fun s hs =>
      h.clean s (mem_requested.mp hs).1 (mem_requested.mp hs).2
    have hnonempty : "" ∉ names.filter (· ∈ wanted) := fun he =>
      (h.clean "" (mem_requested.mp he).1 (mem_requested.mp he).2).2.2 rfl
    rw [hread]
    by_cases hin : ∃ s ∈ names.filter (· ∈ wanted), Text.contains s "openid" = true
    · rw [if_pos hin]
      obtain ⟨s, hs, hcontains⟩ := hin
      refine ⟨?_, fun s hw hn => mem_requested.mpr ⟨hn, hw⟩, fun s hs => ?_, h.nodup, hnonempty⟩
      · exact mem_requested.mpr
          (h.openid s (mem_requested.mp hs).1 (mem_requested.mp hs).2 hcontains)
      · exact .inr (mem_requested.mp hs).symm
    · rw [if_neg hin]
      -- `openid` contains itself, so that it is not among the names
      have hapart : "openid" ∉ names.filter (· ∈ wanted) := fun hopenid =>
        hin ⟨"openid", hopenid, by decide⟩
      refine ⟨List.mem_cons_self, fun s hw hn => ?_, fun s hs => ?_,
        List.nodup_cons.mpr ⟨hapart, h.nodup⟩, ?_⟩
      · exact List.mem_cons_of_mem _ (mem_requested.mpr ⟨hn, hw⟩)
      · rcases List.mem_cons.mp hs with rfl | hs
        · exact .inl rfl
        · exact .inr (mem_requested.mp hs).symm
      · rw [List.mem_cons, not_or]
        exact ⟨by decide, hnonempty⟩

end Sanitized

theorem Client.sanitizeScopes_ok {wanted : List String} {r : String} :
    Exec sem (Client.sanitizeScopes wanted) w (.ok r) w' ↔
      ∃ scopes, Exec sem Scope.findAll w (.ok scopes) w' ∧
        r = scopeText (scopes.map Scope.name) wanted := by
  constructor
  · intro h
    obtain ⟨scopes, w₁, hall, hret⟩ := exec_bind_ok.mp h
    obtain ⟨hr, rfl⟩ := exec_ret.mp hret
    exact ⟨scopes, hall, Except.ok.inj hr⟩
  · rintro ⟨scopes, hall, rfl⟩
    exact exec_bind_ok.mpr ⟨scopes, w', hall, exec_ret.mpr ⟨rfl, rfl⟩⟩

/-- The scopes of the table, or those that are cached for it. -/
def ServedScopes (w : World) (scopes : List Scope) : Prop :=
  w.cache .c12hr "scopes_" = some (.scopes scopes) ∨ scopes = w.db .scopes

theorem Scope.findAll_cases {scopes : List Scope} (h : Exec sem Scope.findAll w (.ok scopes) w') :
    w' = w ∧ w.cache .c12hr "scopes_" = some (.scopes scopes) ∨
      scopes = w.db .scopes ∧ w'.cache .c12hr "scopes_" = some (.scopes scopes) := by
  rcases exec_cached h with ⟨v, hv, has, hw⟩ | ⟨w₁, w₂, hw, hload, rfl⟩
  · cases v <;> cases has
    exact .inl ⟨hw, hv⟩
  · obtain ⟨rfl, -⟩ := exec_select.mp hload
    right
    rw [List.filter_true]
    constructor
    · rcases hw with rfl | rfl <;> rfl
    · rw [World.put_cache, if_pos ⟨rfl, rfl⟩]

theorem ServedScopes.of_findAll {scopes : List Scope}
    (h : Exec sem Scope.findAll w (.ok scopes) w') : ServedScopes w scopes := by
  rcases Scope.findAll_cases h with ⟨-, hcached⟩ | ⟨hrows, -⟩
  · exact .inl hcached
  · exact .inr hrows

/-- **The scopes of a client** are `openid` and the requested ones that exist, each once, exactly if
the requested ones are joinable. -/
theorem sanitized_scopes_iff {w w' : World} {wanted : List String} {r : String}
    (h : Exec sem (Client.sanitizeScopes wanted) w (.ok r) w') :
    ∃ scopes, ServedScopes w scopes ∧ ∀ c : Client, c.scopes = r →
      (Sanitized (scopes.map Scope.name) wanted c.getScopes ↔
        Joinable (scopes.map Scope.name) wanted) := by
  obtain ⟨scopes, hall, rfl⟩ := Client.sanitizeScopes_ok.mp h
  refine ⟨scopes, .of_findAll hall, fun c hc => ?_⟩
  rw [Client.getScopes, hc]
  exact sanitized_iff_joinable

/-- The scope of the specification, and a custom one that is named after it. -/
def scopeWorld : World where
  clock := 0
  issued := []
  db := Function.update (fun _ => []) .scopes
    [(⟨"s1", "openid", none, none⟩ : Scope), ⟨"s2", "openid_custom", none, none⟩]
  cache := fun _ _ => none

theorem exec_sanitizeScopes_scopeWorld (wanted : List String) :
    ∃ w', Exec sem (Client.sanitizeScopes wanted) scopeWorld
      (.ok (scopeText ["openid", "openid_custom"] wanted)) w' := by
  have hrows : Exec sem (select .scopes fun _ => true) (scopeWorld.del .c12hr "scopes_")
      (.ok (scopeWorld.db .scopes)) (scopeWorld.del .c12hr "scopes_") := exec_select.mpr ⟨rfl, rfl⟩
  exact ⟨_, Client.sanitizeScopes_ok.mpr ⟨scopeWorld.db .scopes, exec_cached_load hrows, rfl⟩⟩

/-- Both scopes are asked for and kept. -/
theorem sanitized_scopes_iff_both :
    ∃ r w', Exec sem (Client.sanitizeScopes ["openid_custom", "openid"]) scopeWorld (.ok r) w' ∧
      ∃ scopes, ServedScopes scopeWorld scopes ∧ ∀ c : Client, c.scopes = r →
        (Sanitized (scopes.map Scope.name) ["openid_custom", "openid"] c.getScopes ↔
          Joinable (scopes.map Scope.name) ["openid_custom", "openid"]) := by
  obtain ⟨w', h⟩ := exec_sanitizeScopes_scopeWorld ["openid_custom", "openid"]
  exact ⟨_, w', h, sanitized_scopes_iff h⟩

/-- A client that asks for the custom scope is left without `openid`. -/
theorem openid_left_out :
    ¬ ∀ (w w' : World) (wanted : List String) (r : String),
      Exec sem (Client.sanitizeScopes wanted) w (.ok r) w' →
      ∃ scopes, ServedScopes w scopes ∧ ∀ c : Client, c.scopes = r →
        Sanitized (scopes.map Scope.name) wanted c.getScopes := by
  intro hall
  obtain ⟨w', h⟩ := exec_sanitizeScopes_scopeWorld ["openid_custom"]
  have htext : scopeText ["openid", "openid_custom"] ["openid_custom"] = "openid_custom" := by decide
  rw [htext] at h
  obtain ⟨scopes, -, hsanitized⟩ := hall _ _ _ _ h
  have hopenid := (hsanitized { sampleClient with scopes := "openid_custom" } rfl).openid
  have hread : ({ sampleClient with scopes := "openid_custom" } : Client).getScopes =
      ["openid_custom"] := by decide
  rw [hread] at hopenid
  exact absurd hopenid (by decide)

end Rauthy
