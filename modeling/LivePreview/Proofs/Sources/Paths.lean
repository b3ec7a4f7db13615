import LivePreview.FileKind
import Mathlib.Data.List.Basic
import Mathlib.Data.List.Infix
import Mathlib.Logic.Relation

namespace LivePreview

namespace Text

theorem after?_eq_none_iff {word text : List Char} : after? word text = none ↔ ¬word <+: text := by
  rw [Option.eq_none_iff_forall_ne_some, List.IsPrefix, not_exists]
  exact forall_congr' fun rest => not_congr (after?_eq_some_iff.trans eq_comm)

end Text

namespace Path

section Tokens

variable {path rest token : List Char}

-- A path without a leading root token stays as it is.
theorem dropRootTokens_of_none {path : List Char} (h : dropRootToken? path = none) :
    dropRootTokens path = path := by
  rw [dropRootTokens]
  split
  · rename_i rest hrest
    rw [h] at hrest
    cases hrest
  · rfl

theorem dropRootTokens_of_some (h : dropRootToken? path = some rest) :
    dropRootTokens path = dropRootTokens rest := by
  rw [dropRootTokens]
  split
  · rename_i other hother
    rw [h, Option.some.injEq] at hother
    rw [hother]
  · rename_i hnone
    rw [h] at hnone
    cases hnone

theorem dropRootToken?_dropRootTokens (path : List Char) :
    dropRootToken? (dropRootTokens path) = none := by
  induction path using dropRootTokens.induct with
  | case1 path rest hrest ih => rwa [dropRootTokens_of_some hrest]
  | case2 path hnone => rwa [dropRootTokens_of_none hnone]

theorem normalize_normalize (path : String) : normalize (normalize path) = normalize path := by
  unfold normalize
  rw [String.toList_ofList, dropRootTokens_of_none (dropRootToken?_dropRootTokens _)]

-- No root token is the beginning of another one, so that the one in front is found.
theorem dropRootToken?_append (h : token ∈ rootTokens) (path : List Char) :
    dropRootToken? (token ++ path) = some path := by
  simp only [rootTokens, List.mem_cons, List.not_mem_nil, or_false] at h
  rcases h with rfl | rfl | rfl | rfl <;> rfl

theorem dropRootTokens_append (h : token ∈ rootTokens) (path : List Char) :
    dropRootTokens (token ++ path) = dropRootTokens path :=
  dropRootTokens_of_some (dropRootToken?_append h path)

theorem normalize_append {token : String} (h : token.toList ∈ rootTokens) (path : String) :
    normalize (token ++ path) = normalize path := by
  rw [normalize, String.toList_append, dropRootTokens_append h, normalize]

-- A chain of root tokens in front of a path says no more than the path.
theorem normalize_join_append {tokens : List String}
    (h : ∀ token ∈ tokens, token.toList ∈ rootTokens)
    (path : String) : normalize (String.join tokens ++ path) = normalize path := by
  induction tokens with
  | nil => rw [String.join_nil, String.empty_append]
  | cons token tokens ih =>
      obtain ⟨htoken, htokens⟩ := List.forall_mem_cons.mp h
      rw [String.join_cons, String.append_assoc, normalize_append htoken, ih htokens]

-- What is dropped is a root token.
theorem exists_of_dropRootToken? (h : dropRootToken? path = some rest) :
    ∃ token ∈ rootTokens, path = token ++ rest := by
  obtain ⟨token, htoken, hafter⟩ := List.exists_of_findSome?_eq_some h
  exact ⟨token, htoken, Text.after?_eq_some_iff.mp hafter⟩

theorem exists_of_mem_rootTokens (h : token ∈ rootTokens) : ∃ front, token = front ++ ['/'] := by
  refine ⟨token.dropLast, ?_⟩
  simp only [rootTokens, List.mem_cons, List.not_mem_nil, or_false] at h
  rcases h with rfl | rfl | rfl | rfl <;> rfl

-- The last segment is told by what follows a slash.
theorem lastSegment_append (front path : List Char) :
    lastSegment (front ++ '/' :: path) = lastSegment path := by
  have hstop : ('/' :: front.reverse).takeWhile (· != '/') = [] := rfl
  rw [lastSegment, List.reverse_append, List.reverse_cons, List.append_assoc,
    List.singleton_append, List.takeWhile_append]
  split
  · rename_i hall
    rw [hstop, List.append_nil, lastSegment, (List.takeWhile_prefix _).eq_of_length hall]
  · rfl

-- Root tokens end with a slash, so that the last segment is left alone.
theorem lastSegment_dropRootTokens (path : List Char) :
    lastSegment (dropRootTokens path) = lastSegment path := by
  induction path using dropRootTokens.induct with
  | case1 path rest hrest ih =>
      obtain ⟨token, htoken, rfl⟩ := exists_of_dropRootToken? hrest
      obtain ⟨front, rfl⟩ := exists_of_mem_rootTokens htoken
      rw [dropRootTokens_of_some hrest, ih, List.append_assoc, List.singleton_append,
        lastSegment_append]
  | case2 path hnone => rw [dropRootTokens_of_none hnone]

theorem baseName_normalize (path : String) : baseName (normalize path) = baseName path := by
  rw [baseName, normalize, String.toList_ofList, lastSegment_dropRootTokens, baseName]

theorem extension?_normalize (path : String) : extension? (normalize path) = extension? path := by
  rw [extension?, normalize, String.toList_ofList, lastSegment_dropRootTokens, extension?]

end Tokens

end Path

-- The tokens of the root say nothing about the kind of a file.
theorem FileKind.ofPath?_normalize (path : String) :
    ofPath? (Path.normalize path) = ofPath? path := by
  rw [ofPath?, ofPath?, Path.extension?_normalize]

namespace Path

section Passes

variable {path token : List Char} {tokens : List (List Char)}

theorem dropRootToken?_eq_none_iff :
    dropRootToken? path = none ↔ ∀ token ∈ rootTokens, ¬token <+: path := by
  rw [dropRootToken?, List.findSome?_eq_none_iff]
  exact forall₂_congr fun _ _ => Text.after?_eq_none_iff

-- The path without the token, if it starts with it.
def takeOff (path token : List Char) : List Char := (Text.after? token path).getD path

theorem takeOff_suffix (path token : List Char) : takeOff path token <:+ path := by
  unfold takeOff
  cases h : Text.after? token path with
  | none => exact List.suffix_rfl
  | some rest => exact ⟨token, (Text.after?_eq_some_iff.mp h).symm⟩

theorem not_isPrefix_of_takeOff (hne : token ≠ []) (h : takeOff path token = path) :
    ¬token <+: path := by
  rintro ⟨rest, rfl⟩
  rw [takeOff, Text.after?_eq_some_iff.mpr rfl, Option.getD_some] at h
  exact hne (List.append_left_eq_self.mp h.symm)

theorem dropRootTokens_takeOff (h : token ∈ rootTokens) (path : List Char) :
    dropRootTokens (takeOff path token) = dropRootTokens path := by
  unfold takeOff
  cases hafter : Text.after? token path with
  | none => rfl
  | some rest =>
      rw [Option.getD_some, Text.after?_eq_some_iff.mp hafter, dropRootTokens_append h]

theorem foldl_takeOff_suffix (tokens : List (List Char)) (path : List Char) :
    tokens.foldl takeOff path <:+ path := by
  induction tokens generalizing path with
  | nil => exact List.suffix_rfl
  | cons token tokens ih => exact (ih _).trans (takeOff_suffix path token)

-- Where nothing was taken off at the end, nothing was taken off on the way.
theorem not_isPrefix_of_foldl_takeOff (hne : ∀ token ∈ tokens, token ≠ [])
    (h : tokens.foldl takeOff path = path) : ∀ token ∈ tokens, ¬token <+: path := by
  induction tokens with
  | nil => exact nofun
  | cons token tokens ih =>
      obtain ⟨htoken, htokens⟩ := List.forall_mem_cons.mp hne
      -- the path cannot grow again, so that the first token took nothing off either
      have hlater := foldl_takeOff_suffix tokens (takeOff path token)
      rw [← List.foldl_cons, h] at hlater
      have hkept : takeOff path token = path :=
        (takeOff_suffix path token).eq_of_length_le hlater.length_le
      rw [List.foldl_cons, hkept] at h
      exact List.forall_mem_cons.mpr ⟨not_isPrefix_of_takeOff htoken hkept, ih htokens h⟩

theorem dropRootTokens_foldl_takeOff (h : ∀ token ∈ tokens, token ∈ rootTokens)
    (path : List Char) : dropRootTokens (tokens.foldl takeOff path) = dropRootTokens path := by
  induction tokens generalizing path with
  | nil => rfl
  | cons token tokens ih =>
      obtain ⟨htoken, htokens⟩ := List.forall_mem_cons.mp h
      rw [List.foldl_cons, ih htokens, dropRootTokens_takeOff htoken]

-- One pass takes every token off once, in their order.
def pass (tokens : List (List Char)) (path : List Char) : List Char := tokens.foldl takeOff path

theorem length_pass_lt (h : pass tokens path ≠ path) :
    (pass tokens path).length < path.length := by
  have hsuffix := foldl_takeOff_suffix tokens path
  exact Nat.lt_of_le_of_ne hsuffix.length_le fun hlength => h (hsuffix.eq_of_length hlength)

-- Passes until one changes nothing.
def passes (tokens : List (List Char)) (path : List Char) : List Char :=
  if pass tokens path = path then path else passes tokens (pass tokens path)
termination_by path.length
decreasing_by exact length_pass_lt ‹_›

theorem passes_eq_dropRootTokens (h : tokens.Perm rootTokens) (path : List Char) :
    passes tokens path = dropRootTokens path := by
  have hmem : ∀ token, token ∈ tokens ↔ token ∈ rootTokens := fun _ => h.mem_iff
  have hne : ∀ token ∈ tokens, token ≠ [] := fun token htoken =>
    (by decide : ∀ token ∈ rootTokens, token ≠ []) token ((hmem token).mp htoken)
  induction path using passes.induct tokens with
  | case1 path hstop =>
      have hbare := not_isPrefix_of_foldl_takeOff hne hstop
      have hnone : dropRootToken? path = none := dropRootToken?_eq_none_iff.mpr fun token htoken =>
        hbare token ((hmem token).mpr htoken)
      rw [passes, if_pos hstop, dropRootTokens_of_none hnone]
  | case2 path hmore ih =>
      rw [passes, if_neg hmore, ih, pass,
        dropRootTokens_foldl_takeOff fun token => (hmem token).mp]

end Passes

section Rest

variable {path rest : String}

-- The tokens of the root, written out.
def rootNames : List String := ["./", "/", "@/", "src/"]

theorem toList_mem_rootTokens_iff {token : String} :
    token.toList ∈ rootTokens ↔ token ∈ rootNames := by
  have hnames : rootTokens = rootNames.map String.toList := rfl
  rw [hnames, List.mem_map_of_injective fun _ _ => String.toList_injective]

-- The path is a chain of tokens of the root and then the rest, which none of them leads.
structure IsRest (path rest : String) : Prop where
  chain : ∃ tokens : List String, (∀ token ∈ tokens, token ∈ rootNames) ∧
    path = String.join tokens ++ rest
  bare : ∀ token ∈ rootNames, ¬token.toList <+: rest.toList

theorem exists_join_normalize (path : List Char) :
    ∃ tokens : List String, (∀ token ∈ tokens, token ∈ rootNames) ∧
      String.ofList path = String.join tokens ++ String.ofList (dropRootTokens path) := by
  induction path using dropRootTokens.induct with
  | case1 path rest hrest ih =>
      obtain ⟨tokens, hnames, hpath⟩ := ih
      obtain ⟨token, htoken, rfl⟩ := exists_of_dropRootToken? hrest
      refine ⟨String.ofList token :: tokens, List.forall_mem_cons.mpr ⟨?_, hnames⟩, ?_⟩
      · rwa [← toList_mem_rootTokens_iff, String.toList_ofList]
      · rw [String.join_cons, String.append_assoc, dropRootTokens_of_some hrest, ← hpath,
          String.ofList_append]
  | case2 path hnone =>
      exact ⟨[], nofun, by rw [dropRootTokens_of_none hnone, String.join_nil, String.empty_append]⟩

theorem isRest_normalize (path : String) : IsRest path (normalize path) := by
  refine ⟨?_, fun token htoken => ?_⟩
  · obtain ⟨tokens, hnames, hpath⟩ := exists_join_normalize path.toList
    rw [String.ofList_toList] at hpath
    exact ⟨tokens, hnames, hpath⟩
  · rw [normalize, String.toList_ofList]
    exact dropRootToken?_eq_none_iff.mp (dropRootToken?_dropRootTokens _) _
      (toList_mem_rootTokens_iff.mpr htoken)

theorem IsRest.eq_normalize (h : IsRest path rest) : rest = normalize path := by
  obtain ⟨⟨tokens, hnames, rfl⟩, hbare⟩ := h
  have hnone : dropRootToken? rest.toList = none := by
    refine dropRootToken?_eq_none_iff.mpr fun token htoken => ?_
    have hname : String.ofList token ∈ rootNames := by
      rwa [← toList_mem_rootTokens_iff, String.toList_ofList]
    simpa using hbare _ hname
  rw [normalize_join_append fun token htoken => toList_mem_rootTokens_iff.mpr (hnames token htoken),
    normalize, dropRootTokens_of_none hnone, String.ofList_toList]

end Rest

-- A path is a chain of tokens of the root and one rest that no token leads, and this rest is its
-- normal path, whatever the order in which passes take the tokens off. Being normal is kept, more
-- tokens in front change nothing, and the name, the extension and the kind of the file stay.
theorem normalize_unique (path : String) :
    (∀ rest, IsRest path rest ↔ rest = normalize path) ∧
    (∀ tokens, tokens.Perm rootTokens →
      String.ofList (passes tokens path.toList) = normalize path) ∧
    normalize (normalize path) = normalize path ∧
    (∀ token ∈ rootNames, normalize (token ++ path) = normalize path) ∧
    baseName (normalize path) = baseName path ∧
    extension? (normalize path) = extension? path ∧
    FileKind.ofPath? (normalize path) = FileKind.ofPath? path := by
  refine ⟨fun rest => ⟨IsRest.eq_normalize, ?_⟩, ?_, normalize_normalize path, ?_,
    baseName_normalize path, extension?_normalize path, FileKind.ofPath?_normalize path⟩
  · rintro rfl
    exact isRest_normalize path
  · intro tokens htokens
    rw [passes_eq_dropRootTokens htokens, normalize]
  · exact fun token htoken => normalize_append (toList_mem_rootTokens_iff.mpr htoken) path

-- Tokens that do not lead the rest stay in it.
theorem normalize_unique_mixedTokens :
    rootTokens.reverse.Perm rootTokens ∧ "src/" ∈ rootNames ∧
      IsRest "@/./src//../src/x.js" "../src/x.js" ∧
      String.ofList (passes rootTokens.reverse "@/./src//../src/x.js".toList) = "../src/x.js" ∧
      normalize ("src/" ++ "@/./src//../src/x.js") = "../src/x.js" := by
  have hnormal : normalize "@/./src//../src/x.js" = "../src/x.js" := by decide +kernel
  obtain ⟨hrest, hpasses, _, htoken, _⟩ := normalize_unique "@/./src//../src/x.js"
  have hperm := List.reverse_perm rootTokens
  have hname : "src/" ∈ rootNames := by decide
  exact ⟨hperm, hname, (hrest _).mpr hnormal.symm, (hpasses _ hperm).trans hnormal,
    (htoken _ hname).trans hnormal⟩

section Walking

variable {segment name path : List Char} {walked steps names : List (List Char)}

-- A segment that leads to a file or a directory of its own.
structure IsName (segment : List Char) : Prop where
  ne_nil : segment ≠ []
  ne_dot : segment ≠ ['.']
  ne_dots : segment ≠ ['.', '.']
  plain : '/' ∉ segment

theorem segments_append (front path : List Char) :
    segments (front ++ '/' :: path) = segments front ++ segments path :=
  List.splitOn_append_cons_self front path

theorem slash_notMem_of_mem_segments (h : segment ∈ segments path) : '/' ∉ segment := by
  induction hlength : path.length using Nat.strong_induction_on generalizing path with
  | _ length ih =>
    by_cases hslash : '/' ∈ path
    · obtain ⟨front, back, rfl⟩ := List.append_of_mem hslash
      rw [List.length_append, List.length_cons] at hlength
      rw [segments_append, List.mem_append] at h
      rcases h with h | h
      · exact ih _ (by omega) h rfl
      · exact ih _ (by omega) h rfl
    · rw [segments, List.splitOn_eq_singleton hslash, List.mem_singleton] at h
      rwa [h]

theorem segments_ofSegments (hne : names ≠ []) (h : ∀ name ∈ names, '/' ∉ name) :
    segments (ofSegments names) = names :=
  List.splitOn_intercalate '/' h hne

theorem ofSegments_segments (path : List Char) : ofSegments (segments path) = path :=
  List.intercalate_splitOn '/'

theorem advance_of_isName (walked : List (List Char)) (h : IsName segment) :
    advance walked segment = walked ++ [segment] := by
  rw [advance, if_neg (not_or.mpr ⟨h.ne_nil, h.ne_dot⟩), if_neg h.ne_dots]

theorem advance_of_stays (walked : List (List Char)) (h : segment = [] ∨ segment = ['.']) :
    advance walked segment = walked := by
  rw [advance, if_pos h]

theorem advance_dots (walked : List (List Char)) :
    advance walked ['.', '.'] = walked.dropLast := rfl

-- A step keeps to names: it goes back, stays, or adds a name.
theorem isName_advance (hwalked : ∀ name ∈ walked, IsName name) (hplain : '/' ∉ segment) :
    ∀ name ∈ advance walked segment, IsName name := by
  unfold advance
  split
  · exact hwalked
  · rename_i hmoves
    obtain ⟨hnil, hdot⟩ := not_or.mp hmoves
    split
    · exact fun name hname => hwalked name (List.dropLast_subset walked hname)
    · rename_i hdots
      exact List.forall_mem_append.mpr
        ⟨hwalked, List.forall_mem_singleton.mpr ⟨hnil, hdot, hdots, hplain⟩⟩

theorem isName_foldl_advance (hwalked : ∀ name ∈ walked, IsName name)
    (hplain : ∀ segment ∈ steps, '/' ∉ segment) :
    ∀ name ∈ steps.foldl advance walked, IsName name := by
  induction steps generalizing walked with
  | nil => exact hwalked
  | cons segment steps ih =>
      obtain ⟨hsegment, hsteps⟩ := List.forall_mem_cons.mp hplain
      exact ih (isName_advance hwalked hsegment) hsteps

-- Names are walked one behind the other.
theorem foldl_advance_names (h : ∀ name ∈ names, IsName name) (walked : List (List Char)) :
    names.foldl advance walked = walked ++ names := by
  induction names generalizing walked with
  | nil => exact (List.append_nil walked).symm
  | cons name names ih =>
      obtain ⟨hname, hnames⟩ := List.forall_mem_cons.mp h
      rw [List.foldl_cons, advance_of_isName walked hname, ih hnames, List.append_assoc,
        List.singleton_append]

-- Where one gets along a path.
def walk (walked : List (List Char)) (path : String) : List (List Char) :=
  (segments path.toList).foldl advance walked

theorem isName_walk (h : ∀ name ∈ walked, IsName name) (path : String) :
    ∀ name ∈ walk walked path, IsName name :=
  isName_foldl_advance h fun _ => slash_notMem_of_mem_segments

theorem walk_append (walked : List (List Char)) (first second : String) :
    walk walked (first ++ "/" ++ second) = walk (walk walked first) second := by
  rw [walk, String.toList_append, String.toList_append, List.append_assoc]
  exact (congrArg _ (segments_append _ _)).trans List.foldl_append

-- The path of some names leads along them, also the empty one.
theorem walk_ofSegments (h : ∀ name ∈ names, IsName name) (walked : List (List Char)) :
    walk walked (String.ofList (ofSegments names)) = walked ++ names := by
  rw [walk, String.toList_ofList]
  by_cases hnil : names = []
  · rw [hnil, List.append_nil]
    exact advance_of_stays walked (.inl rfl)
  · rw [segments_ofSegments hnil fun name hname => (h name hname).plain,
      foldl_advance_names h walked]

end Walking

section Shortening

variable {segment name path : List Char} {walked steps shorter names : List (List Char)}

-- One way to leave steps out: a step that stays, a name and the way back from it, or a way back at
-- the root.
inductive Shortens : List (List Char) → List (List Char) → Prop
  | stay (front back : List (List Char)) {segment : List Char}
      (h : segment = [] ∨ segment = ['.']) : Shortens (front ++ segment :: back) (front ++ back)
  | retreat (front back : List (List Char)) {name : List Char} (h : IsName name) :
      Shortens (front ++ name :: ['.', '.'] :: back) (front ++ back)
  | root (back : List (List Char)) : Shortens (['.', '.'] :: back) back

theorem Shortens.foldl_advance (h : Shortens steps shorter) :
    steps.foldl advance [] = shorter.foldl advance [] := by
  cases h with
  | stay front back h =>
      rw [List.foldl_append, List.foldl_cons, advance_of_stays _ h, List.foldl_append]
  | retreat front back h =>
      rw [List.foldl_append, List.foldl_cons, List.foldl_cons, advance_of_isName _ h, advance_dots,
        List.dropLast_concat, List.foldl_append]
  | root back => rfl

-- The walk is one way of shortening, from the front. What has been walked consists of names, so
-- that a step back either meets a name or stands at the root.
theorem shortens_foldl_advance (hwalked : ∀ name ∈ walked, IsName name)
    (hplain : ∀ segment ∈ steps, '/' ∉ segment) :
    Relation.ReflTransGen Shortens (walked ++ steps) (steps.foldl advance walked) := by
  induction steps generalizing walked with
  | nil => rw [List.append_nil, List.foldl_nil]
  | cons segment steps ih =>
      obtain ⟨hsegment, hsteps⟩ := List.forall_mem_cons.mp hplain
      have hlater := ih (isName_advance hwalked hsegment) hsteps
      rw [List.foldl_cons]
      by_cases hstays : segment = [] ∨ segment = ['.']
      · rw [advance_of_stays walked hstays] at hlater ⊢
        exact .head (.stay walked steps hstays) hlater
      by_cases hdots : segment = ['.', '.']
      · rw [hdots, advance_dots] at hlater ⊢
        rcases List.eq_nil_or_concat' walked with rfl | ⟨front, name, rfl⟩
        · exact .head (.root steps) hlater
        · rw [List.dropLast_concat] at hlater ⊢
          have hname : IsName name := hwalked name List.mem_concat_self
          rw [List.append_assoc, List.singleton_append]
          exact .head (.retreat front steps hname) hlater
      · obtain ⟨hnil, hdot⟩ := not_or.mp hstays
        rw [advance_of_isName walked ⟨hnil, hdot, hdots, hsegment⟩] at hlater ⊢
        rwa [List.append_assoc, List.singleton_append] at hlater

theorem foldl_advance_of_shortens (h : Relation.ReflTransGen Shortens steps shorter) :
    steps.foldl advance [] = shorter.foldl advance [] := by
  induction h with
  | refl => rfl
  | tail _ hstep ih => exact ih.trans hstep.foldl_advance

-- However steps are shortened, where only names are left they are those of the walk.
theorem shortens_names_iff (hplain : ∀ segment ∈ steps, '/' ∉ segment)
    (hnames : ∀ name ∈ names, IsName name) :
    Relation.ReflTransGen Shortens steps names ↔ steps.foldl advance [] = names := by
  constructor
  · intro h
    rw [foldl_advance_of_shortens h, foldl_advance_names hnames, List.nil_append]
  · rintro rfl
    exact shortens_foldl_advance (List.forall_mem_nil IsName) hplain

end Shortening

section Joining

variable {path : String} {names : List (List Char)}

-- The root, or names with slashes between them.
def Canonical (path : String) : Prop := path = "" ∨ ∀ segment ∈ segments path.toList, IsName segment

theorem canonical_ofSegments (h : ∀ name ∈ names, IsName name) :
    Canonical (String.ofList (ofSegments names)) := by
  by_cases hnil : names = []
  · exact .inl (by rw [hnil]; rfl)
  · refine .inr ?_
    rwa [String.toList_ofList, segments_ofSegments hnil fun name hname => (h name hname).plain]

theorem Canonical.exists_names (h : Canonical path) :
    ∃ names, (∀ name ∈ names, IsName name) ∧ path = String.ofList (ofSegments names) := by
  rcases h with rfl | h
  · exact ⟨[], List.forall_mem_nil IsName, rfl⟩
  · exact ⟨segments path.toList, h, by rw [ofSegments_segments, String.ofList_toList]⟩

theorem join_eq (base relative : String) :
    join base relative = String.ofList (ofSegments (walk (walk [] base) relative)) := by
  rw [join, List.foldl_append, walk, walk]

theorem isName_walk_walk (base relative : String) :
    ∀ name ∈ walk (walk [] base) relative, IsName name :=
  isName_walk (isName_walk (List.forall_mem_nil IsName) base) relative

theorem walk_join (walked : List (List Char)) (base relative : String) :
    walk walked (join base relative) = walked ++ walk (walk [] base) relative := by
  rw [join_eq, walk_ofSegments (isName_walk_walk base relative)]

theorem canonical_join (base relative : String) : Canonical (join base relative) :=
  join_eq base relative ▸ canonical_ofSegments (isName_walk_walk base relative)

theorem join_join (base relative further : String) :
    join (join base relative) further = join base (relative ++ "/" ++ further) := by
  rw [join_eq (join base relative), walk_join, List.nil_append, join_eq, walk_append]

theorem canonical_iff_join_empty : Canonical path ↔ join "" path = path := by
  constructor
  · intro h
    obtain ⟨names, hnames, rfl⟩ := h.exists_names
    rw [join_eq, walk_ofSegments hnames]
    rfl
  · intro h
    exact h ▸ canonical_join "" path

-- Names are told by the path that they make.
theorem ofSegments_inj {other : List (List Char)} (h : ∀ name ∈ names, IsName name)
    (hother : ∀ name ∈ other, IsName name) (hsame : ofSegments names = ofSegments other) :
    names = other := by
  rw [← List.nil_append names, ← List.nil_append other, ← walk_ofSegments h, hsame,
    walk_ofSegments hother]

theorem shortens_iff_join (base relative : String) (h : ∀ name ∈ names, IsName name) :
    Relation.ReflTransGen Shortens (segments base.toList ++ segments relative.toList) names ↔
      join base relative = String.ofList (ofSegments names) := by
  have hplain : ∀ segment ∈ segments base.toList ++ segments relative.toList, '/' ∉ segment :=
    List.forall_mem_append.mpr
      ⟨fun _ => slash_notMem_of_mem_segments, fun _ => slash_notMem_of_mem_segments⟩
  rw [shortens_names_iff hplain h, List.foldl_append, join_eq, String.ofList_inj]
  exact ⟨congrArg ofSegments, ofSegments_inj (isName_walk_walk base relative) h⟩

-- A joined path is the root or made of names, it stays when it is joined to the root, and to follow
-- a path in two parts leads where the whole leads. Just the paths of this form stay. The names of a
-- joined path are those that are left when a step back goes out together with the name in front of
-- it, or alone at the root, in whatever order.
theorem join_canonical (base relative further : String) :
    Canonical (join base relative) ∧
    join "" (join base relative) = join base relative ∧
    join (join base relative) further = join base (relative ++ "/" ++ further) ∧
    (Canonical base ↔ join "" base = base) ∧
    ∀ names, (∀ name ∈ names, IsName name) →
      (Relation.ReflTransGen Shortens (segments base.toList ++ segments relative.toList) names ↔
        join base relative = String.ofList (ofSegments names)) :=
  ⟨canonical_join base relative, canonical_iff_join_empty.mp (canonical_join base relative),
    join_join base relative further, canonical_iff_join_empty,
    fun _ => shortens_iff_join base relative⟩

-- The ways back above the root are left out.
theorem join_canonical_aboveRoot :
    (∀ name ∈ ["c".toList], IsName name) ∧ join "a/./b" "../../..//c" = "c" ∧
      Relation.ReflTransGen Shortens
        (segments "a/./b".toList ++ segments "../../..//c".toList) ["c".toList] := by
  have hjoin : join "a/./b" "../../..//c" = "c" := by decide +kernel
  have hname : ∀ name ∈ ["c".toList], IsName name :=
    List.forall_mem_singleton.mpr ⟨by decide, by decide, by decide, by decide⟩
  obtain ⟨_, _, _, _, hshortens⟩ := join_canonical "a/./b" "../../..//c" "d"
  exact ⟨hname, hjoin, (hshortens _ hname).mpr hjoin⟩

end Joining

end Path

end LivePreview
