import LivePreview.Proofs.Sources.Preparing
import LivePreview.Resolution

namespace LivePreview

namespace Sources

variable {files : Sources} {importer name path : String} {kind : FileKind}

theorem contains_iff : files.contains path = true ↔ ∃ content, files.get? path = some content :=
  Option.isSome_iff_exists

theorem contains_of_locate? (h : files.locate? name = some path) : files.contains path = true := by
  unfold locate? at h
  dsimp only at h
  split at h
  · cases h
  · exact List.find?_some h

-- A name that stands for a file stands for one that is there.
theorem contains_of_resolve (h : files.resolve importer name = .file path) :
    files.contains path = true := by
  unfold resolve at h
  dsimp only at h
  split at h
  · rename_i hlocate
    cases h
    rcases Option.or_eq_some_iff.mp hlocate with hroot | ⟨_, hnear⟩
    · exact contains_of_locate? hroot
    · obtain ⟨followed, _, hlocate⟩ := Option.bind_eq_some_iff.mp hnear
      exact contains_of_locate? hlocate
  · split at h
    · cases h
    · split at h <;> cases h

-- What has a kind ends with no slash.
theorem dropTrailingSlashes_of_ofPath? (h : FileKind.ofPath? path = some kind) :
    dropTrailingSlashes path = path := by
  obtain ⟨extension, hextension, _⟩ := Option.bind_eq_some_iff.mp h
  have hlast : path.toList.reverse.dropWhile (· == '/') = path.toList.reverse := by
    cases hreverse : path.toList.reverse with
    | nil => rfl
    | cons c rest =>
        by_cases hc : c = '/'
        · subst hc
          rw [Path.extension?, Path.lastSegment, hreverse] at hextension
          cases hextension
        · rw [List.dropWhile_cons_of_neg (by simpa using hc)]
  rw [dropTrailingSlashes, hlast, List.reverse_reverse, String.ofList_toList]

-- The path itself is the first one that is tried.
theorem locate?_of_contains (hcontains : files.contains path = true)
    (hkind : FileKind.ofPath? path = some kind) : files.locate? path = some path := by
  have hne : path ≠ "" := by
    rintro rfl
    cases hkind
  rw [locate?, dropTrailingSlashes_of_ofPath? hkind, if_neg hne, candidates, impliedExtensions,
    List.map_cons, List.cons_append, List.find?_cons, String.append_empty, hcontains]

-- A file called by its path from the root is found from everywhere.
theorem resolve_of_contains (importer : String) (hcontains : files.contains path = true)
    (hkind : FileKind.ofPath? path = some kind) (hname : Path.normalize name = path) :
    files.resolve importer name = .file path := by
  rw [resolve, hname, locate?_of_contains hcontains hkind]
  rfl

-- What has no file and is no asset goes by its name alone.
theorem resolve_cases (files : Sources) (importer name : String) :
    (∃ path, files.resolve importer name = .file path) ∨
      (∃ id source, files.resolve importer name = .asset id source) ∨
      (Path.isBare name = true ∧ files.resolve importer name = .package name) ∨
      (Path.isBare name = false ∧ files.resolve importer name = .unknown name) := by
  unfold resolve
  dsimp only
  split
  · exact .inl ⟨_, rfl⟩
  · split
    · exact .inr (.inl ⟨_, _, rfl⟩)
    · split
      · rename_i hbare
        exact .inr (.inr (.inl ⟨hbare, rfl⟩))
      · rename_i hbare
        exact .inr (.inr (.inr ⟨Bool.eq_false_iff.mpr hbare, rfl⟩))

end Sources

-- What is named is left to the page.
def Resolution.isExternal : Resolution → Bool
  | package _ | unknown _ => true
  | _ => false

-- A package goes by the name that mentions it.
theorem Sources.resolve_eq_package_iff {files : Sources} {importer name other : String} :
    files.resolve importer name = .package other ↔
      other = name ∧ (files.resolve importer name).isExternal = true ∧ Path.isBare name = true := by
  rcases files.resolve_cases importer name with
    ⟨path, h⟩ | ⟨id, source, h⟩ | ⟨hbare, h⟩ | ⟨hbare, h⟩
  · simp [h, Resolution.isExternal]
  · simp [h, Resolution.isExternal]
  · simp [h, hbare, Resolution.isExternal, eq_comm]
  · simp [h, hbare, Resolution.isExternal]

namespace Outside

-- What is needed after a sequence of mentions, each of them a file and the name it mentions.
def after (files : Sources) (outside : Outside) (mentions : List (String × String)) : Outside :=
  mentions.foldl (fun outside mention =>
    outside.note mention.1 (files.resolve mention.1 mention.2)) outside

variable {files : Sources} {outside : Outside} {importer name other : String}

theorem after_append (files : Sources) (outside : Outside)
    (mentions later : List (String × String)) :
    after files outside (mentions ++ later) = after files (after files outside mentions) later :=
  List.foldl_append

-- One mention adds its name to the packages if it is bare and stands for nothing in the project.
theorem mem_packages_note :
    other ∈ (outside.note importer (files.resolve importer name)).packages.toList ↔
      other ∈ outside.packages.toList ∨
        other = name ∧ (files.resolve importer name).isExternal = true ∧
          Path.isBare name = true := by
  rcases files.resolve_cases importer name with
    ⟨path, h⟩ | ⟨id, source, h⟩ | ⟨hbare, h⟩ | ⟨hbare, h⟩
  · simp [h, note, Resolution.isExternal]
  · simp [h, note, Resolution.isExternal]
  · rw [h, note, NameSet.insert, NameSet.mem_insertName, or_comm]
    simp [hbare, Resolution.isExternal]
  · simp [h, hbare, note, Resolution.isExternal]

-- One mention adds a warning if its name is not bare and stands for nothing in the project.
theorem warnings_note (files : Sources) (outside : Outside) (importer name : String) :
    (outside.note importer (files.resolve importer name)).warnings = outside.warnings ++
      if ((files.resolve importer name).isExternal && !Path.isBare name) = true then
        [unknownWarning importer name]
      else [] := by
  rcases files.resolve_cases importer name with
    ⟨path, h⟩ | ⟨id, source, h⟩ | ⟨hbare, h⟩ | ⟨hbare, h⟩
  · simp [h, note, Resolution.isExternal]
  · simp [h, note, Resolution.isExternal]
  · simp [h, hbare, note, Resolution.isExternal]
  · simp [h, hbare, note, Resolution.isExternal]

theorem mem_packages_after {mentions : List (String × String)} :
    name ∈ (after files outside mentions).packages.toList ↔ name ∈ outside.packages.toList ∨
      ∃ importer, (importer, name) ∈ mentions ∧
        (files.resolve importer name).isExternal = true ∧ Path.isBare name = true := by
  induction mentions generalizing outside with
  | nil => simp [after]
  | cons mention mentions ih =>
      obtain ⟨importer, mentioned⟩ := mention
      have hstep : after files outside ((importer, mentioned) :: mentions) =
        after files (outside.note importer (files.resolve importer mentioned)) mentions := rfl
      rw [hstep, ih, mem_packages_note, or_assoc]
      refine or_congr_right ⟨?_, ?_⟩
      · rintro (⟨rfl, hexternal⟩ | ⟨importer, hmem, hexternal⟩)
        · exact ⟨importer, List.mem_cons_self, hexternal⟩
        · exact ⟨importer, List.mem_cons_of_mem _ hmem, hexternal⟩
      · rintro ⟨other, hmem, hexternal⟩
        rcases List.mem_cons.mp hmem with heq | hmem
        · obtain ⟨rfl, rfl⟩ := Prod.mk.inj heq
          exact .inl ⟨rfl, hexternal⟩
        · exact .inr ⟨other, hmem, hexternal⟩

theorem warnings_after (files : Sources) (outside : Outside) (mentions : List (String × String)) :
    (after files outside mentions).warnings = outside.warnings ++
      (mentions.filter fun mention =>
        (files.resolve mention.1 mention.2).isExternal && !Path.isBare mention.2).map
          fun mention => unknownWarning mention.1 mention.2 := by
  induction mentions generalizing outside with
  | nil => exact (List.append_nil _).symm
  | cons mention mentions ih =>
      have hstep : after files outside (mention :: mentions) =
        after files (outside.note mention.1 (files.resolve mention.1 mention.2)) mentions := rfl
      rw [hstep, ih, warnings_note, List.append_assoc, List.filter_cons]
      split <;> rfl

end Outside

-- A file that a name stands for is there. A prepared file is found from everywhere by its path,
-- with any root tokens in front of it. What is left to the page is noted, under the packages if its
-- name is bare and otherwise with a warning.
theorem Sources.resolve_accounted (files : Sources) (mentions : List (String × String)) :
    (∀ importer name path, files.resolve importer name = .file path →
      ∃ content, files.get? path = some content) ∧
    (∀ (given : Sources) (skip : Bool) (key : String), key ∈ (given.prepare skip).files.paths →
      key ∈ files.paths → ∀ tokens : List String,
        (∀ token ∈ tokens, token ∈ ["./", "/", "@/", "src/"]) → ∀ importer,
          files.resolve importer (String.join tokens ++ key) = .file key) ∧
    (Outside.after files .empty mentions).packages.toList.Pairwise
      (fun name other => Text.bytes name < Text.bytes other) ∧
    (∀ name, name ∈ (Outside.after files .empty mentions).packages.toList ↔
      ∃ importer, (importer, name) ∈ mentions ∧
        (files.resolve importer name).isExternal = true ∧ Path.isBare name = true) ∧
    (Outside.after files .empty mentions).warnings =
      (mentions.filter fun mention =>
        (files.resolve mention.1 mention.2).isExternal && !Path.isBare mention.2).map
          fun mention => Outside.unknownWarning mention.1 mention.2 := by
  refine ⟨fun importer name path h => contains_iff.mp (contains_of_resolve h), ?_, ?_,
    fun name => ?_, Outside.warnings_after files .empty mentions⟩
  · intro given skip key hprepared hkey tokens htokens importer
    obtain ⟨hnormal, kind, hkind⟩ := normal_of_mem_prepare hprepared
    have hroot : ∀ token ∈ ["./", "/", "@/", "src/"], token.toList ∈ Path.rootTokens := by decide
    have hname :=
      Path.normalize_join_append (fun token hmem => hroot token (htokens token hmem)) key
    exact resolve_of_contains importer (contains_iff_mem_paths.mpr hkey) hkind
      (hname.trans hnormal)
  · exact (Outside.after files .empty mentions).packages.ascending.imp Text.bytes_lt_bytes_iff.mpr
  · rw [Outside.mem_packages_after]
    exact or_iff_right List.not_mem_nil

-- One file is there, under two spellings. Of what is mentioned else, two names are bare.
def Sources.soleScript : Sources := .ofList [("./src/lib/a.js", "1"), ("lib/a.js", "2")]

theorem Sources.resolve_accounted_soleScript :
    (soleScript.prepare true).files.resolve "b.js" ("./@/src//" ++ "lib/a.js") = .file "lib/a.js" ∧
      (∃ content, (soleScript.prepare true).files.get? "lib/a.js" = some content) ∧
      "react" ∈ (Outside.after (soleScript.prepare true).files .empty
        [("b.js", "vue"), ("b.js", "./c"), ("b.js", "react"), ("b.js", "./a.png"),
          ("c.js", "react")]).packages.toList ∧
      (Outside.after (soleScript.prepare true).files .empty
        [("b.js", "vue"), ("b.js", "./c"), ("b.js", "react"), ("b.js", "./a.png"),
          ("c.js", "react")]).warnings = [Outside.unknownWarning "b.js" "./c"] := by
  obtain ⟨hfile, hreached, _, hpackages, hwarnings⟩ := resolve_accounted
    (soleScript.prepare true).files
    [("b.js", "vue"), ("b.js", "./c"), ("b.js", "react"), ("b.js", "./a.png"), ("c.js", "react")]
  have hpath : "lib/a.js" ∈ (soleScript.prepare true).files.paths := by decide +kernel
  have hresolve := hreached soleScript true "lib/a.js" hpath hpath ["./", "@/", "src/", "/"]
    (by decide) "b.js"
  refine ⟨hresolve, hfile _ _ _ hresolve, (hpackages "react").mpr ⟨"b.js", ?_⟩, ?_⟩
  · decide +kernel
  · rw [hwarnings]
    decide +kernel

end LivePreview
