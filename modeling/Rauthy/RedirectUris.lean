/-
Rauthy/RedirectUris.lean

The registered redirect URIs of a client and the requested one (`validate_redirect_uri`, and the
same test in `logout`).  A registered URI may end with a `*`, which stands for any rest; the code
takes what is before the first `*` as the start that has to match, and it keeps the URIs of a
client in one text with commas between them.

Main results:
  * `matches_iff_covers`, what the code compares a request with;
  * `any_pieces`, which of the registered URIs it looks at as they were given;
  * `redirect_uris_iff`: exactly when it accepts what the registered URIs admit;
  * `inner_wildcard_admits`: a second `*` opens the URI to other hosts.
-/
import Rauthy.Columns
import Rauthy.Logout

namespace Rauthy

open Prog

variable {uri : String}

/-! ### What registered URIs admit -/

/-- The requested URI is the registered one, or the registered one ends with a `*` and the
requested one starts with what is before. -/
def Admits (uri target : String) : Prop :=
  uri = target ∨ ∃ start : String, uri = start ++ "*" ∧ Text.startsWith target start = true

/-- The code looks at the URI as it was given: no comma cuts it, no blanks are trimmed off, and
the `*` at its end is its first one. -/
def Plain (uri : String) : Prop :=
  ',' ∉ uri.toList ∧ Text.trim uri = uri ∧ ∀ start, uri.toList = start ++ ['*'] → '*' ∉ start

/-- What the code looks at instead of the other URIs; an empty list is read back as one empty
URI. -/
def OddPiece (uris : List String) (piece : String) : Prop :=
  (∃ uri ∈ uris, ¬ Plain uri ∧ ∃ cell ∈ Text.split ',' uri, piece = Text.trim cell) ∨
    uris = [] ∧ piece = ""

/-- The piece is the target, or it ends with a `*` and the target starts with what is before its
first one. -/
def Covers (piece target : String) : Prop :=
  piece = target ∨ (Text.endsWith piece "*" = true ∧ ∃ start rest : String, '*' ∉ start.toList ∧
    piece = start ++ "*" ++ rest ∧ Text.startsWith target start = true)

/-- A plain URI admits the target, or a piece of the other ones covers it exactly if one of these
admits it. -/
def MatchedAsMeant (uris : List String) (target : String) : Prop :=
  (∃ uri ∈ uris, Plain uri ∧ Admits uri target) ∨
    ((∃ piece, OddPiece uris piece ∧ Covers piece target) ↔
      ∃ uri ∈ uris, ¬ Plain uri ∧ Admits uri target)

/-! ### The pieces of the text -/

theorem mem_splitOn_intercalate {c : Char} {l : List (List Char)} (hl : l ≠ []) {x : List Char} :
    x ∈ ([c].intercalate l).splitOn c ↔ ∃ a ∈ l, x ∈ a.splitOn c := by
  induction l with
  | nil => exact absurd rfl hl
  | cons a l ih =>
      rcases l with - | ⟨b, l⟩
      · simp
      · rw [List.intercalate_cons_cons, List.append_assoc, List.singleton_append,
          List.splitOn_append_cons_self, List.mem_append, ih (by simp)]
        simp only [List.mem_cons, exists_eq_or_imp]

theorem mem_split_join {uris : List String} (hl : uris ≠ []) {cell : String} :
    cell ∈ Text.split ',' (Text.join "," uris) ↔ ∃ uri ∈ uris, cell ∈ Text.split ',' uri := by
  have hsep : ",".toList = [','] := rfl
  simp only [Text.split_eq, Text.toList_join, hsep, List.mem_map,
    mem_splitOn_intercalate (c := ',') (l := uris.map String.toList) (by simpa using hl)]
  constructor
  · rintro ⟨x, ⟨a, ⟨uri, huri, rfl⟩, hx⟩, rfl⟩
    exact ⟨uri, huri, x, hx, rfl⟩
  · rintro ⟨uri, huri, x, hx, rfl⟩
    exact ⟨x, ⟨uri.toList, ⟨uri, huri, rfl⟩, hx⟩, rfl⟩

theorem split_of_noComma (h : ',' ∉ uri.toList) : Text.split ',' uri = [uri] := by
  rw [Text.split_eq, Csv.splitOn_cell h, List.map_singleton, String.ofList_toList]

/-! ### Plain URIs -/

theorem endsWith_star_iff :
    Text.endsWith uri "*" = true ↔ ∃ start, uri.toList = start ++ ['*'] := by
  rw [Text.endsWith, List.isSuffixOf_iff_suffix]
  constructor
  · rintro ⟨start, h⟩
    exact ⟨start, h.symm⟩
  · rintro ⟨start, h⟩
    exact ⟨start, h.symm⟩

theorem splitOnce_star {start : String} (rest : String) (h : '*' ∉ start.toList) :
    Text.splitOnce (start ++ "*" ++ rest) "*" = some (start, rest) := by
  have hlist : (start ++ "*" ++ rest).toList = start.toList ++ '*' :: rest.toList := by
    simp only [String.toList_append, List.append_assoc]
    rfl
  have hstar : "*".toList = ['*'] := rfl
  rw [Text.splitOnce, hlist, hstar, Text.splitOnceList_char h, Option.map_some,
    String.ofList_toList, String.ofList_toList]

/-- A text is cut at its first `*` in one way only. -/
theorem star_unique {a b a' b' : String} (ha : '*' ∉ a.toList) (ha' : '*' ∉ a'.toList)
    (h : a ++ "*" ++ b = a' ++ "*" ++ b') : a = a' := by
  have hcut := splitOnce_star b ha
  rw [h, splitOnce_star b' ha'] at hcut
  cases hcut
  rfl

/-- **What the code matches with**, for any text. -/
theorem matches_iff_covers {piece target : String} :
    Client.matchesRedirectUri piece target = true ↔ Covers piece target := by
  rw [Client.matchesRedirectUri, Bool.or_eq_true, Bool.and_eq_true, beq_iff_eq, or_comm, Covers]
  refine or_congr Iff.rfl (and_congr_right fun hends => ?_)
  obtain ⟨init, hinit⟩ := endsWith_star_iff.mp hends
  obtain ⟨start, rest, hpiece, hstart⟩ := List.eq_append_cons_of_mem
    (show '*' ∈ piece.toList by simp [hinit])
  have hcut : piece = String.ofList start ++ "*" ++ String.ofList rest := by
    rw [← String.toList_inj, hpiece]
    simp
  have hno : '*' ∉ (String.ofList start).toList := by rwa [String.toList_ofList]
  rw [hcut, splitOnce_star _ hno]
  constructor
  · exact fun hmatch => ⟨_, _, hno, rfl, hmatch⟩
  · rintro ⟨start', rest', hno', heq, hmatch⟩
    rw [star_unique hno hno' heq]
    exact hmatch

/-- **A plain URI is matched as it is meant.** -/
theorem covers_iff_admits {target : String} (h : Plain uri) :
    Covers uri target ↔ Admits uri target := by
  obtain ⟨-, -, hstar⟩ := h
  refine or_congr Iff.rfl ?_
  constructor
  · rintro ⟨hends, start, rest, hno, huri, hmatch⟩
    obtain ⟨init, hinit⟩ := endsWith_star_iff.mp hends
    have hlast : uri = String.ofList init ++ "*" := by
      rw [← String.toList_inj, hinit, String.toList_append, String.toList_ofList]
      rfl
    have hsame : start = String.ofList init := by
      refine @star_unique _ rest _ "" hno ?_ ?_
      · rw [String.toList_ofList]
        exact hstar init hinit
      · rw [← huri, hlast, String.append_empty]
    exact ⟨start, by rw [hsame, hlast], hmatch⟩
  · rintro ⟨start, rfl, hmatch⟩
    have hlist : (start ++ "*").toList = start.toList ++ ['*'] := String.toList_append
    exact ⟨endsWith_star_iff.mpr ⟨start.toList, hlist⟩, start, "", hstar _ hlist,
      String.append_empty.symm, hmatch⟩

/-- **The registered URIs as the code sees them**: the plain ones as they are, and the pieces of
the others. -/
theorem any_pieces (uris : List String) (target : String) :
    ((Text.split ',' (Text.join "," uris)).map Text.trim).any
        (Client.matchesRedirectUri · target) = true ↔
      (∃ uri ∈ uris, Plain uri ∧ Admits uri target) ∨
        ∃ piece, OddPiece uris piece ∧ Covers piece target := by
  rw [List.any_map, List.any_eq_true]
  simp only [Function.comp_apply, matches_iff_covers]
  by_cases hl : uris = []
  · subst hl
    have hsplit : Text.split ',' (Text.join "," []) = [""] := by decide
    have htrim : Text.trim "" = "" := by decide
    simp only [hsplit, List.mem_singleton, exists_eq_left, htrim]
    constructor
    · exact fun hmatch => .inr ⟨"", .inr ⟨rfl, rfl⟩, hmatch⟩
    · rintro (⟨uri, huri, -⟩ | ⟨piece, ⟨uri, huri, -⟩ | ⟨-, rfl⟩, hmatch⟩)
      · cases huri
      · cases huri
      · exact hmatch
  · constructor
    · rintro ⟨cell, hcell, hmatch⟩
      obtain ⟨uri, huri, hin⟩ := (mem_split_join hl).mp hcell
      by_cases hplain : Plain uri
      · rw [split_of_noComma hplain.1, List.mem_singleton] at hin
        rw [hin, hplain.2.1, covers_iff_admits hplain] at hmatch
        exact .inl ⟨uri, huri, hplain, hmatch⟩
      · exact .inr ⟨Text.trim cell, .inl ⟨uri, huri, hplain, cell, hin, rfl⟩, hmatch⟩
    · rintro (⟨uri, huri, hplain, hadmits⟩ |
        ⟨piece, ⟨uri, huri, -, cell, hin, rfl⟩ | ⟨hnil, -⟩, hmatch⟩)
      · have hcell : uri ∈ Text.split ',' uri := by
          rw [split_of_noComma hplain.1]
          exact List.mem_singleton_self uri
        refine ⟨uri, (mem_split_join hl).mpr ⟨uri, huri, hcell⟩, ?_⟩
        rw [hplain.2.1, covers_iff_admits hplain]
        exact hadmits
      · exact ⟨cell, (mem_split_join hl).mpr ⟨uri, huri, hin⟩, hmatch⟩
      · exact absurd hnil hl

/-! ### The check -/

/-- A matched URI is one that was meant, if and only if the odd ones are treated as meant. -/
theorem matched_iff (uris : List String) (target : String) :
    (((Text.split ',' (Text.join "," uris)).map Text.trim).any
        (Client.matchesRedirectUri · target) = true ↔ ∃ uri ∈ uris, Admits uri target) ↔
      MatchedAsMeant uris target := by
  have hspec : (∃ uri ∈ uris, Admits uri target) ↔
      (∃ uri ∈ uris, Plain uri ∧ Admits uri target) ∨
        ∃ uri ∈ uris, ¬ Plain uri ∧ Admits uri target := by
    constructor
    · rintro ⟨uri, huri, hadmits⟩
      by_cases hplain : Plain uri
      · exact .inl ⟨uri, huri, hplain, hadmits⟩
      · exact .inr ⟨uri, huri, hplain, hadmits⟩
    · rintro (⟨uri, huri, -, hadmits⟩ | ⟨uri, huri, -, hadmits⟩)
      · exact ⟨uri, huri, hadmits⟩
      · exact ⟨uri, huri, hadmits⟩
  have hlogic : ∀ p q r : Prop, ((p ∨ q) ↔ (p ∨ r)) ↔ (p ∨ (q ↔ r)) := by
    intro p q r
    by_cases hp : p <;> simp [hp]
  rw [any_pieces, hspec]
  exact hlogic _ _ _

/-- **Redirect URIs are matched as they are meant, if and only if** a plain one admits the request,
or the others admit it exactly when one of their pieces covers it. -/
theorem redirect_uris_iff (uris : List String) (target : String) :
    (∀ c : Client, c.redirectUris = Text.join "," uris →
      ((c.validateRedirectUri target = .ok () ↔ ∃ uri ∈ uris, Admits uri target) ↔
        MatchedAsMeant uris target)) ∧
    ∀ (w : World) (id : String) (c : Client), (∀ c', ClientKnown w id c' ↔ c' = c) →
      c.postLogoutRedirectUris = some (Text.join "," uris) →
      (((∃ w', Exec sem (checkPostLogoutUri id (some target)) w (.ok ()) w') ↔
        ∃ uri ∈ uris, Admits uri target) ↔ MatchedAsMeant uris target) := by
  refine ⟨fun c hc => ?_, fun w id c hknown hc => ?_⟩
  · have hvalidate : c.validateRedirectUri target = .ok () ↔
        ((Text.split ',' (Text.join "," uris)).map Text.trim).any
          (Client.matchesRedirectUri · target) = true := by
      rw [Client.validateRedirectUri, Client.getRedirectUris, hc]
      split
      · next h => exact iff_of_true rfl h
      · next h => exact iff_of_false (by simp) h
    rw [hvalidate]
    exact matched_iff uris target
  · have hcheck : (∃ w', Exec sem (checkPostLogoutUri id (some target)) w (.ok ()) w') ↔
        ((Text.split ',' (Text.join "," uris)).map Text.trim).any
          (Client.matchesRedirectUri · target) = true := by
      rw [exec_checkPostLogoutUri, UriRegistered]
      constructor
      · rintro ⟨c', uris', hc', huris', hany⟩
        obtain rfl := (hknown c').mp hc'
        rw [Client.getPostLogoutUris, hc, Option.map_some] at huris'
        rw [← Option.some.inj huris'] at hany
        exact hany
      · intro hany
        have huris : c.getPostLogoutUris = some ((Text.split ',' (Text.join "," uris)).map
            Text.trim) := by
          rw [Client.getPostLogoutUris, hc, Option.map_some]
        exact ⟨c, _, (hknown c).mpr rfl, huris, hany⟩
    rw [hcheck]
    exact matched_iff uris target

/-- A client with one address and everything below it. -/
def wildcardClient : Client :=
  { sampleClient with
    redirectUris := "https://app/*", postLogoutRedirectUris := some "https://app/*" }

/-- The client is in the table. -/
def wildcardWorld : World :=
  { quietWorld with db := fun
      | .clients => [wildcardClient]
      | _ => [] }

theorem redirect_uris_iff_app :
    ((wildcardClient.validateRedirectUri "https://app/callback" = .ok () ↔
        ∃ uri ∈ ["https://app/*"], Admits uri "https://app/callback") ↔
      MatchedAsMeant ["https://app/*"] "https://app/callback") ∧
    (((∃ w', Exec sem (checkPostLogoutUri "app" (some "https://app/callback")) wildcardWorld
        (.ok ()) w') ↔ ∃ uri ∈ ["https://app/*"], Admits uri "https://app/callback") ↔
      MatchedAsMeant ["https://app/*"] "https://app/callback") := by
  have hknown : ∀ c, ClientKnown wildcardWorld "app" c ↔ c = wildcardClient := by
    intro c
    constructor
    · rintro (hcache | htable)
      · cases hcache
      · exact (Option.some.inj htable).symm
    · rintro rfl
      exact .inr rfl
  have huris := redirect_uris_iff ["https://app/*"] "https://app/callback"
  exact ⟨huris.1 wildcardClient rfl, huris.2 wildcardWorld "app" wildcardClient hknown rfl⟩

/-- A second wildcard opens the address to other hosts. -/
theorem inner_wildcard_admits :
    ¬ ∀ (uris : List String) (target : String) (c : Client), c.redirectUris = Text.join "," uris →
      (c.validateRedirectUri target = .ok () ↔ ∃ uri ∈ uris, Admits uri target) := by
  intro hall
  have hvalid := hall ["https://*.app/*"] "https://evil/"
    { sampleClient with redirectUris := "https://*.app/*" } rfl
  obtain ⟨uri, huri, hadmits⟩ := hvalid.mp (by decide)
  obtain rfl := List.mem_singleton.mp huri
  rcases hadmits with heq | ⟨start, hstart, hmatch⟩
  · exact absurd heq (by decide)
  · have hlist := congrArg (fun s => s.toList.dropLast) hstart
    simp only [String.toList_append] at hlist
    rw [show "*".toList = ['*'] from rfl, List.dropLast_concat] at hlist
    rw [Text.startsWith, ← hlist] at hmatch
    exact absurd hmatch (by decide)

end Rauthy
