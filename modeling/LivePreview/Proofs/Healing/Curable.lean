import LivePreview.Proofs.Diagnosis.Undefined
import LivePreview.Proofs.Healing.Attempts
import LivePreview.Proofs.Script.Merging
import LivePreview.Proofs.Sources.Alike

namespace LivePreview.Healing

open Linking Script

-- Files of which nothing keeps a bundle but undeclared components, the imports of which can be added:
-- they are known, and their modules are no files of the project.
structure Curable (options : BundleOptions) (files : Sources) (plan : BuildPlan) : Prop where
  make : BuildPlan.make options files = .ok plan
  spelled : (files.paths.map Path.normalize).Nodup
  plain : PlainPaths plan.files
  names : NoAssetNames plan.files
  undeclared : ∀ path ∈ reached plan.files plan.start, ∀ finding ∈ findingsOf plan.files path,
    ∃ name known, KnownName.find? name = some known ∧ finding.problem = .undeclared name ∧
      (files.prepare options.skipInvalid).files.contains path = true ∧
      ∀ importer target, plan.files.resolve importer known.module ≠ .file target
  takes : ∀ path ∈ reached plan.files plan.start, ∀ source,
    readable? plan.files path = some source → TakesImports (registered? plan.files path) source

-- What may have become of a file: it is what it was, or it is a script that is reached, and imports
-- that it lacked were added.
def Repaired (plan : BuildPlan) (path content other : String) : Prop :=
  other = content ∨ (path ∈ reached plan.files plan.start ∧
    readable? plan.files path = some content.toList ∧ Patched content.toList other.toList)

-- What may have become of all files.
def AllRepaired (plan : BuildPlan) (files later : Sources) : Prop :=
  files.Alike (fun path => Repaired plan (Path.normalize path)) later

theorem exists_undeclaredFinding {files : Sources} {path name : String} {source : List Char}
    (hread : readable? files path = some source) (h : name ∈ undeclaredNames source) :
    ∃ finding ∈ undeclaredFindings files path, finding.problem = .undeclared name := by
  obtain ⟨tag, htag, rfl⟩ := List.mem_map.mp h
  rw [undeclaredFindings, hread]
  exact ⟨_, List.mem_map_of_mem htag, rfl⟩

namespace Curable

variable {options : BundleOptions} {files later : Sources} {plan : BuildPlan}

theorem onlyUndeclared (h : Curable options files plan) {path : String}
    (hpath : path ∈ reached plan.files plan.start) : OnlyUndeclared plan.files path := by
  intro finding hfinding
  obtain ⟨name, _, _, hproblem, _⟩ := h.undeclared path hpath finding hfinding
  exact ⟨name, hproblem⟩

theorem exists_get? (h : Curable options files plan) {path : String}
    (hpath : path ∈ reached plan.files plan.start) :
    ∃ content, plan.files.get? path = some content := by
  cases hget : plan.files.get? path with
  | some content => exact ⟨content, rfl⟩
  | none =>
      obtain ⟨name, hproblem⟩ := h.onlyUndeclared hpath ⟨.missingFile path, path, none⟩ (by
        rw [findingsOf, hget]
        exact List.mem_cons_self)
      cases hproblem

-- The module of a component that is undeclared is no file of the project.
theorem strange (h : Curable options files plan) {path name : String} {source : List Char}
    {known : KnownName} (hpath : path ∈ reached plan.files plan.start)
    (hread : readable? plan.files path = some source) (hname : name ∈ undeclaredNames source)
    (hknown : KnownName.find? name = some known) (importer target : String) :
    plan.files.resolve importer known.module ≠ .file target := by
  obtain ⟨finding, hfinding, hproblem⟩ := exists_undeclaredFinding hread hname
  obtain ⟨other, found, hfound, hother, _, hstrange⟩ := h.undeclared path hpath finding (by
    rw [findingsOf_of_readable hread]
    exact List.mem_append_left _ hfinding)
  obtain rfl := Problem.undeclared.inj (hproblem.symm.trans hother)
  obtain rfl := Option.some.inj (hknown.symm.trans hfound)
  exact hstrange importer target

theorem samePart (h : Curable options files plan) (path content other : String)
    (hrepaired : Repaired plan path content other) : Sources.SamePart path content other := by
  rcases hrepaired with rfl | ⟨hpath, hread, hpatched⟩
  · exact .refl path other
  · have htakes := h.takes path hpath _ hread
    obtain ⟨_, _, hdata, hstyle, _, _⟩ := readable?_eq_some_iff.mp hread
    have hholds := htakes.holds _ hpatched
    have hmounts := htakes.mounts _ hpatched
    rw [String.ofList_toList, String.ofList_toList] at hholds hmounts
    refine ⟨fun kind hkind => ?_, hmounts.symm⟩
    cases kind with
    | script => exact hholds.symm
    | style => exact absurd hkind hstyle
    | data => exact absurd hkind hdata

-- The same is built from the files as they have become.
theorem exists_plan (h : Curable options files plan) (hlater : AllRepaired plan files later) :
    ∃ other, BuildPlan.make options later = .ok other ∧ other.start = plan.start ∧
      plan.files.Alike (Repaired plan) other.files :=
  Sources.Alike.make hlater h.samePart (fun _ _ => .inl rfl) h.make

theorem rewritten (h : Curable options files plan) {built : Sources}
    (hbuilt : plan.files.Alike (Repaired plan) built) :
    Rewritten (fun module => ∀ importer path, plan.files.resolve importer module ≠ .file path)
      plan.start plan.files built := by
  refine ⟨hbuilt.paths_eq, hbuilt.resolve_eq, fun _ hstrange => hstrange, fun path hpath => ?_⟩
  obtain ⟨content, hcontent⟩ := h.exists_get? hpath
  obtain ⟨other, hother, hrepaired⟩ := hbuilt.exists_get? hcontent
  refine ⟨content, other, hcontent, hother, ?_⟩
  cases hread : readable? plan.files path with
  | none =>
      rcases hrepaired with rfl | ⟨_, hsome, _⟩
      · exact .inl ⟨rfl, rfl⟩
      · rw [hread] at hsome
        cases hsome
  | some source =>
      obtain ⟨_, hget, _, _, _, rfl⟩ := readable?_eq_some_iff.mp hread
      obtain rfl := Option.some.inj (hcontent.symm.trans hget)
      have hpatched : Patched content.toList other.toList := by
        rcases hrepaired with rfl | ⟨_, _, hpatched⟩
        · exact .refl
        · exact hpatched
      refine .inr ⟨rfl, ?_⟩
      have hreads := (h.takes path hpath _ hread).reads _ hpatched
      refine ⟨hreads.balanced, hreads.provides, fun count number mention hmention => ?_,
        hreads.kept⟩
      refine (hreads.mentions count number mention hmention).imp ?_ id
      rintro ⟨name, hname, known, hknown, hmodule⟩
      rw [← hmodule]
      exact h.strange hpath hread hname hknown

-- The text of a module that is read comes from the one that it was read from at first.
theorem exists_source {built : Sources} (hbuilt : plan.files.Alike (Repaired plan) built) {path : String} {text : List Char}
    (hread : readable? built path = some text) :
    ∃ source, readable? plan.files path = some source ∧ Patched source text := by
  obtain ⟨other, hother, hdata, hstyle, hbalanced, rfl⟩ := readable?_eq_some_iff.mp hread
  obtain ⟨content, hcontent, rfl | ⟨_, hsome, hpatched⟩⟩ := hbuilt.exists_get?_first hother
  · exact ⟨_, readable?_eq_some_iff.mpr ⟨other, hcontent, hdata, hstyle, hbalanced, rfl⟩, .refl⟩
  · exact ⟨_, hsome, hpatched⟩

end Curable

-- The component is undeclared in the file.
def lacks (files : Sources) (key name : String) : Bool :=
  (undeclaredNames (Walk.sourceOf files key)).contains name

-- The files of the project that are reached and read as scripts.
def treatable (options : BundleOptions) (files : Sources) (plan : BuildPlan) : List String :=
  files.paths.filter fun key => (reached plan.files plan.start).contains (Path.normalize key) &&
    ((readable? plan.files (Path.normalize key)).isSome &&
      (files.prepare options.skipInvalid).files.contains (Path.normalize key))

-- The error says of the file that the component is undeclared in it.
structure Concerns (error : BundleError) (key name : String) : Prop where
  tells : Undefined.Tells name error.raw.toList
  file : ∃ named, (Classifier.usual.classify error.raw).location.file? = some named ∧
    Path.normalize named = Path.normalize key

namespace Curable

variable {options : BundleOptions} {files later : Sources} {plan : BuildPlan} {key name : String}

theorem mem_treatable_iff : key ∈ treatable options files plan ↔ key ∈ files.paths ∧
    Path.normalize key ∈ reached plan.files plan.start ∧
    (∃ source, readable? plan.files (Path.normalize key) = some source) ∧
    (files.prepare options.skipInvalid).files.contains (Path.normalize key) = true := by
  rw [treatable, List.mem_filter, Bool.and_eq_true, Bool.and_eq_true, List.contains_iff_mem,
    Option.isSome_iff_exists]

-- What is built holds the file under its spelling.
theorem get?_built (h : Curable options files plan) (hlater : AllRepaired plan files later)
    {other : BuildPlan} (hother : BuildPlan.make options later = .ok other)
    (hkey : key ∈ files.paths)
    (hkept : (files.prepare options.skipInvalid).files.contains (Path.normalize key) = true) :
    other.files.get? (Path.normalize key) = later.get? key := by
  have hprepared := (Sources.Alike.prepare hlater h.samePart options.skipInvalid).1
  rw [← hprepared.contains_eq] at hkept
  have hpaths := Sources.Alike.paths_eq hlater
  rw [BuildPlan.get?_of_prepared hother hkept]
  exact Sources.get?_prepare_of_spelled (hpaths ▸ h.spelled) hkept (hpaths ▸ hkey) rfl

-- A file that can be treated holds its first text with imports added.
theorem exists_texts (h : Curable options files plan) (hlater : AllRepaired plan files later)
    (hkey : key ∈ treatable options files plan) :
    ∃ content other, files.get? key = some content ∧ later.get? key = some other ∧
      readable? plan.files (Path.normalize key) = some content.toList ∧
      Patched content.toList other.toList := by
  obtain ⟨hpaths, _, ⟨source, hread⟩, hkept⟩ := mem_treatable_iff.mp hkey
  obtain ⟨content, hget, _, _, _, rfl⟩ := readable?_eq_some_iff.mp hread
  have hfiles : AllRepaired plan files files := .refl (fun _ _ => .inl rfl) files
  rw [h.get?_built hfiles h.make hpaths hkept] at hget
  obtain ⟨other, hother, hrepaired⟩ := Sources.Alike.exists_get? hlater hget
  refine ⟨content, other, hget, hother, hread, ?_⟩
  rcases hrepaired with rfl | ⟨_, _, hpatched⟩
  · exact .refl
  · exact hpatched

-- The errors of a bundle of the files as they have become are about components that are undeclared.
theorem exists_built (h : Curable options files plan) (hlater : AllRepaired plan files later)
    {bundler : Bundler Bool} (hlinker : bundler.IsLinker options) :
    ∃ other, BuildPlan.make options later = .ok other ∧
      plan.files.Alike (Repaired plan) other.files ∧
      ((bundler.bundle later).1.success = true ↔ (bundler.bundle later).1.errors = []) ∧
      ∀ error, error ∈ (bundler.bundle later).1.errors ↔
        ∃ path ∈ reached plan.files plan.start, ∃ finding ∈ undeclaredFindings other.files path,
          error = .ofMessage (.ofFinding finding) := by
  obtain ⟨other, hother, hstart, hbuilt⟩ := h.exists_plan hlater
  have hrewritten := h.rewritten hbuilt
  obtain ⟨herrors, hsuccess⟩ :=
    Bundler.errors_bundle hlinker hother (hrewritten.noAssetNames h.names)
  rw [hstart] at herrors hsuccess
  refine ⟨other, hother, hbuilt, ?_, fun error => ?_⟩
  · rw [hsuccess, herrors, List.map_eq_nil_iff]
  · rw [herrors, List.mem_map]
    simp only [List.mem_flatMap, hrewritten.mem_reached_iff h.names]
    constructor
    · rintro ⟨finding, ⟨path, hpath, hfinding⟩, rfl⟩
      rw [hrewritten.findingsOf_eq h.names (fun _ => h.onlyUndeclared) hpath] at hfinding
      exact ⟨path, hpath, finding, hfinding, rfl⟩
    · rintro ⟨path, hpath, finding, hfinding, rfl⟩
      rw [← hrewritten.findingsOf_eq h.names (fun _ => h.onlyUndeclared) hpath] at hfinding
      exact ⟨finding, ⟨path, hpath, hfinding⟩, rfl⟩

-- A component that is undeclared in the files as they have become was so from the start.
theorem exists_known (h : Curable options files plan) {path : String} {source text : List Char}
    (hpath : path ∈ reached plan.files plan.start)
    (hread : readable? plan.files path = some source) (hpatched : Patched source text)
    (hname : name ∈ undeclaredNames text) :
    (∃ known, KnownName.find? name = some known) ∧
      (files.prepare options.skipInvalid).files.contains path = true := by
  obtain ⟨finding, hfinding, hproblem⟩ :=
    exists_undeclaredFinding hread ((h.takes path hpath source hread).subset hpatched hname)
  obtain ⟨other, known, hknown, hother, hkept, _⟩ := h.undeclared path hpath finding (by
    rw [findingsOf_of_readable hread]
    exact List.mem_append_left _ hfinding)
  obtain rfl := Problem.undeclared.inj (hproblem.symm.trans hother)
  exact ⟨⟨known, hknown⟩, hkept⟩

theorem concerns (h : Curable options files plan) {built : Sources}
    (hbuilt : plan.files.Alike (Repaired plan) built) {text : List Char} {known : KnownName}
    (hknown : KnownName.find? name = some known)
    (hread : readable? built (Path.normalize key) = some text) {tag : List Char × Nat}
    (htag : tag ∈ undeclaredComponents text) (hname : String.ofList tag.1 = name) :
    Concerns (.ofMessage (.ofFinding
      (.at (.undeclared (String.ofList tag.1)) (Path.normalize key) text tag.2))) key name := by
  obtain ⟨place, hplace⟩ := (tagAt_of_undeclared htag).exists_placeAt?
  obtain ⟨_, hget, _⟩ := readable?_eq_some_iff.mp hread
  have hmem : Path.normalize key ∈ built.paths :=
    Sources.mem_paths_iff.mpr (Sources.contains_iff.mpr ⟨_, hget⟩)
  have hplain : Location.Plain (Path.normalize key).toList :=
    h.plain _ (hbuilt.paths_eq ▸ hmem)
  obtain ⟨hmember, rfl⟩ := name_of_find? hknown
  have hplainly := Undefined.plainly_of_known hmember
  have hproblem : (Finding.at (.undeclared (String.ofList tag.1)) (Path.normalize key) text
      tag.2).problem = .undeclared known.name := congrArg Problem.undeclared hname
  obtain ⟨named, hnamed, hnormal⟩ := Undefined.file?_finding hplainly hplain hproblem hplace
  exact ⟨Undefined.tells_finding hplain hproblem hplace, named, hnamed,
    hnormal.trans (Path.normalize_normalize key)⟩

-- As long as a file lacks a component, there is an error about it in every bundle.
theorem exists_error (h : Curable options files plan) (hlater : AllRepaired plan files later)
    {bundler : Bundler Bool} (hlinker : bundler.IsLinker options)
    (hkey : key ∈ treatable options files plan) (hlacks : lacks later key name = true) :
    (∃ known, KnownName.find? name = some known) ∧
      ∃ error ∈ (bundler.bundle later).1.errors, Concerns error key name := by
  obtain ⟨other, hother, hbuilt, _, herrors⟩ := h.exists_built hlater hlinker
  obtain ⟨hpaths, hreached, _, hkept⟩ := mem_treatable_iff.mp hkey
  obtain ⟨content, text, hcontent, htext, hread, hpatched⟩ := h.exists_texts hlater hkey
  have hname : name ∈ undeclaredNames text.toList := by
    rw [lacks, List.contains_iff_mem, Walk.sourceOf, htext] at hlacks
    exact hlacks
  obtain ⟨⟨known, hknown⟩, _⟩ := h.exists_known hreached hread hpatched hname
  obtain ⟨tag, htag, hnamed⟩ := List.mem_map.mp hname
  have hbalanced := ((h.takes _ hreached _ hread).reads _ hpatched).balanced
  have hnow : readable? other.files (Path.normalize key) = some text.toList := by
    obtain ⟨_, _, hdata, hstyle, _, _⟩ := readable?_eq_some_iff.mp hread
    have hget := h.get?_built hlater hother hpaths hkept
    exact readable?_eq_some_iff.mpr ⟨text, hget.trans htext, hdata, hstyle, hbalanced, rfl⟩
  refine ⟨⟨known, hknown⟩, _, (herrors _).mpr ⟨_, hreached, _, ?_, rfl⟩,
    h.concerns hbuilt hknown hnow htag hnamed⟩
  rw [undeclaredFindings, hnow]
  exact List.mem_map_of_mem htag

-- Every error of a bundle is about a known component that a file lacks.
theorem exists_lack (h : Curable options files plan) (hlater : AllRepaired plan files later)
    {bundler : Bundler Bool} (hlinker : bundler.IsLinker options) {error : BundleError}
    (herror : error ∈ (bundler.bundle later).1.errors) :
    ∃ key ∈ treatable options files plan, ∃ name known, KnownName.find? name = some known ∧
      lacks later key name = true ∧ Concerns error key name := by
  obtain ⟨other, hother, hbuilt, _, herrors⟩ := h.exists_built hlater hlinker
  obtain ⟨path, hpath, finding, hfinding, rfl⟩ := (herrors error).mp herror
  cases hread : readable? other.files path with
  | none =>
      rw [undeclaredFindings, hread] at hfinding
      cases hfinding
  | some text =>
      rw [undeclaredFindings, hread] at hfinding
      obtain ⟨tag, htag, rfl⟩ := List.mem_map.mp hfinding
      obtain ⟨source, hsource, hpatched⟩ := exists_source hbuilt hread
      have hname : String.ofList tag.1 ∈ undeclaredNames text := List.mem_map_of_mem htag
      obtain ⟨⟨known, hknown⟩, hkept⟩ := h.exists_known hpath hsource hpatched hname
      obtain ⟨content, hget⟩ := Option.isSome_iff_exists.mp hkept
      obtain ⟨key, hkey, rfl⟩ := Sources.exists_of_get?_prepare hget
      have hpaths : key ∈ files.paths :=
        List.mem_map.mpr ⟨(key, content), Sources.get?_eq_some_iff.mp hkey, rfl⟩
      obtain ⟨now, hnow, _, _, _, rfl⟩ := readable?_eq_some_iff.mp hread
      rw [h.get?_built hlater hother hpaths hkept] at hnow
      refine ⟨key, mem_treatable_iff.mpr ⟨hpaths, hpath, ⟨source, hsource⟩, hkept⟩, _, known,
        hknown, ?_, h.concerns hbuilt hknown hread htag rfl⟩
      rw [lacks, List.contains_iff_mem, Walk.sourceOf, hnow]
      exact hname

end Curable

end LivePreview.Healing
