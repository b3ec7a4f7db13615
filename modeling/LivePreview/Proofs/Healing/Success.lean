import LivePreview.Proofs.Healing.Cure
import LivePreview.Proofs.Script.Components

namespace LivePreview

namespace Script

theorem nodup_undeclaredNames (source : List Char) : (undeclaredNames source).Nodup := by
  have hnodup : ((undeclaredComponents source).map (·.1)).Nodup :=
    (nodup_firstOfEachName [] _).1.sublist (List.filter_sublist.map _)
  have hnames : undeclaredNames source =
      ((undeclaredComponents source).map (·.1)).map String.ofList := by
    rw [List.map_map]
    rfl
  rw [hnames]
  exact hnodup.map fun _ _ heq => String.ofList_injective heq

end Script

namespace Healing

open Linking Script

theorem countP_flatMap_of_one {α β : Type} {items : List α} {results : α → List β}
    {first : α → Bool} {second : β → Bool}
    (hone : ∀ item ∈ items, (results item).countP second = if first item then 1 else 0) :
    (items.flatMap results).countP second = items.countP first := by
  induction items with
  | nil => rfl
  | cons item items ih =>
      rw [List.flatMap_cons, List.countP_append, List.countP_cons,
        hone item List.mem_cons_self, ih fun other hother => hone other (List.mem_cons_of_mem _ hother),
        Nat.add_comm]

-- The component is undeclared in the module at the path.
def lacksAt (files : Sources) (name path : String) : Bool :=
  (readable? files path).any fun source => (undeclaredNames source).contains name

theorem countP_undeclaredFindings (files : Sources) (name path : String) :
    (undeclaredFindings files path).countP
        (fun finding => finding.problem.message == (Problem.undeclared name).message) =
      if lacksAt files name path then 1 else 0 := by
  unfold undeclaredFindings lacksAt
  cases readable? files path with
  | none => rfl
  | some source =>
      have hcount : ((undeclaredComponents source).map fun tag => Finding.at
          (.undeclared (String.ofList tag.1)) path source tag.2).countP
            (fun finding => finding.problem.message == (Problem.undeclared name).message) =
          (undeclaredNames source).count name := by
        rw [List.countP_map, undeclaredNames, List.count, List.countP_map]
        refine List.countP_congr fun tag _ => ?_
        simp only [Function.comp_apply, Finding.at, beq_iff_eq]
        exact ⟨name_eq_of_message, fun heq => by rw [heq]⟩
      rw [Option.elim_some, Option.any_some, hcount]
      split
      · rename_i hmem
        exact List.count_eq_one_of_mem (nodup_undeclaredNames source)
          (List.contains_iff_mem.mp hmem)
      · rename_i hnot
        exact List.count_eq_zero_of_not_mem fun hmem => hnot (List.contains_iff_mem.mpr hmem)

namespace Curable

variable {options : BundleOptions} {files : Sources} {plan : BuildPlan} {name : String}

theorem errors_eq (h : Curable options files plan) :
    ((Bundler.onLinker options).bundle files).1.errors =
      ((reached plan.files plan.start).flatMap (undeclaredFindings plan.files)).map
        fun finding => .ofMessage (.ofFinding finding) := by
  rw [(Bundler.errors_bundle (Bundler.isLinker_onLinker options) h.make h.names).1]
  congr 1
  have hsame : plan.files.Alike (Repaired plan) plan.files := .refl (fun _ _ => .inl rfl) _
  exact List.flatMap_congr fun path hpath =>
    (h.rewritten hsame).findingsOf_eq h.names (fun _ => h.onlyUndeclared) hpath

-- A file lacks a component if the module that is built from it does.
theorem lacks_iff_lacksAt (h : Curable options files plan) {key : String}
    (hkey : key ∈ treatable options files plan) :
    lacks files key name = true ↔ lacksAt plan.files name (Path.normalize key) = true := by
  have hfiles : AllRepaired plan files files := .refl (fun _ _ => .inl rfl) files
  obtain ⟨content, _, hcontent, _, hread, _⟩ := h.exists_texts hfiles hkey
  rw [lacks, Walk.sourceOf, hcontent, lacksAt, hread]
  rfl

theorem exists_key (h : Curable options files plan) {path : String}
    (hpath : path ∈ reached plan.files plan.start) (hlacks : lacksAt plan.files name path = true) :
    ∃ key ∈ treatable options files plan, Path.normalize key = path := by
  unfold lacksAt at hlacks
  cases hread : readable? plan.files path with
  | none =>
      rw [hread] at hlacks
      cases hlacks
  | some source =>
      rw [hread, Option.any_some, List.contains_iff_mem] at hlacks
      obtain ⟨_, hkept⟩ := h.exists_known hpath hread .refl hlacks
      obtain ⟨content, hget⟩ := Option.isSome_iff_exists.mp hkept
      obtain ⟨key, hkey, rfl⟩ := Sources.exists_of_get?_prepare hget
      have hpaths : key ∈ files.paths :=
        List.mem_map.mpr ⟨(key, content), Sources.get?_eq_some_iff.mp hkey, rfl⟩
      exact ⟨key, mem_treatable_iff.mpr ⟨hpaths, hpath, ⟨source, hread⟩, hkept⟩, rfl⟩

-- There are as many errors about a component as there are files that lack it.
theorem need_eq_countP (h : Curable options files plan) (name : String) :
    need options files plan files name =
      ((Bundler.onLinker options).bundle files).1.errors.countP
        (·.message == (Problem.undeclared name).message) := by
  have hpaths : (((treatable options files plan).filter (lacks files · name)).map
      Path.normalize).Perm ((reached plan.files plan.start).filter (lacksAt plan.files name)) := by
    refine (List.perm_ext_iff_of_nodup ?_ ?_).mpr fun path => ?_
    · refine (h.nodup_treatable.filter _).map_on fun key hkey other hother heq => ?_
      have hin := (mem_treatable_iff.mp (List.mem_filter.mp hkey).1).1
      have hin' := (mem_treatable_iff.mp (List.mem_filter.mp hother).1).1
      exact List.inj_on_of_nodup_map h.spelled hin hin' heq
    · exact (nodup_reached h.names plan.start).filter _
    · rw [List.mem_map, List.mem_filter]
      constructor
      · rintro ⟨key, hkey, rfl⟩
        obtain ⟨hkey, hlacks⟩ := List.mem_filter.mp hkey
        exact ⟨(mem_treatable_iff.mp hkey).2.1, (h.lacks_iff_lacksAt hkey).mp hlacks⟩
      · rintro ⟨hpath, hlacks⟩
        obtain ⟨key, hkey, rfl⟩ := h.exists_key hpath hlacks
        exact ⟨key, List.mem_filter.mpr ⟨hkey, (h.lacks_iff_lacksAt hkey).mpr hlacks⟩, rfl⟩
  have hlength := hpaths.length_eq
  rw [List.length_map, ← List.countP_eq_length_filter, ← List.countP_eq_length_filter] at hlength
  rw [h.errors_eq, List.countP_map, need, hlength]
  exact (countP_flatMap_of_one fun path _ => countP_undeclaredFindings plan.files name path).symm

end Curable

variable {ρ : Type} {healer : Healer ρ} {options : BundleOptions} {files : Sources}
  {plan : BuildPlan}

theorem Treated.start (options : BundleOptions) (files : Sources) (plan : BuildPlan) (service : ρ) :
    Treated options files plan (.ofFiles (Bundler.onLinker options) service files) :=
  ⟨(Bundler.bundle_linker (Bundler.isLinker_onLinker options) files).2, rfl,
    .refl (fun _ _ => .inl rfl) files⟩

-- Healing succeeds if and only if no component is lacking in more files than there are rounds.
theorem Curable.exists_report (h : Curable options files plan)
    (hclassifier : healer.classifier = .usual) (hservice : healer.service.answersPrompts = false)
    (hsettings : healer.scheduler.problem? = none) (service : ρ) :
    ∃ report workspace,
      healer.heal (Bundler.onLinker options) service files = .ok (report, workspace) ∧
        (report.success = true ↔
          ∀ name, need options files plan files name ≤ healer.options.maxRounds) := by
  let start : Progress Bool ρ :=
    ⟨0, .ofFiles (Bundler.onLinker options) service files, .ofTasks []⟩
  have hstart : Treated options files plan start.workspace :=
    Treated.start options files plan service
  obtain ⟨after, hafter, hiff⟩ :=
    hstart.makeRounds healer.options.maxRounds h hclassifier hservice hsettings
  refine ⟨healer.report files after, after.workspace, ?_, hiff⟩
  unfold Healer.heal
  dsimp only
  rw [hafter]
  rfl

-- The error is about a component that is known, in a file of the project, and no file of the project
-- takes the place of the module of the component.
structure Addable (options : BundleOptions) (files : Sources) (plan : BuildPlan)
    (error : BundleError) : Prop where
  known : ∃ name known, KnownName.find? name = some known ∧
    error.message = (Problem.undeclared name).message ∧
    ∀ importer target, plan.files.resolve importer known.module ≠ .file target
  file : ∃ path, error.file? = some path ∧
    (files.prepare options.skipInvalid).files.contains path = true

theorem path_of_mem_findingsOf {finding : Finding} {path : String} (hplain : PlainPaths files)
    (h : finding ∈ findingsOf files path) : finding.path = path := by
  unfold findingsOf at h
  split at h
  · rw [List.mem_singleton.mp h]
  · split at h
    · split at h
      · cases h
      · rw [List.mem_singleton.mp h]
    · cases h
    · exact (quiet_of_mem_scriptFindings hplain h).1

theorem Curable.of_errors (hplan : BuildPlan.make options files = .ok plan)
    (hspelled : (files.paths.map Path.normalize).Nodup) (hplain : PlainPaths plan.files)
    (hnames : NoAssetNames plan.files)
    (herrors : ∀ error ∈ ((Bundler.onLinker options).bundle files).1.errors,
      Addable options files plan error)
    (htakes : ∀ path ∈ reached plan.files plan.start, ∀ source,
      readable? plan.files path = some source →
        TakesImports (registered? plan.files path) source) :
    Curable options files plan := by
  refine ⟨hplan, hspelled, hplain, hnames, fun path hpath finding hfinding => ?_, htakes⟩
  rw [(Bundler.errors_bundle (Bundler.isLinker_onLinker options) hplan hnames).1] at herrors
  obtain ⟨⟨name, known, hknown, hmessage, hstrange⟩, named, hnamed, hkept⟩ := herrors _
    (List.mem_map_of_mem (List.mem_flatMap.mpr ⟨path, hpath, hfinding⟩))
  obtain rfl : finding.path = named := Option.some.inj hnamed
  rw [path_of_mem_findingsOf hplain hfinding] at hkept
  exact ⟨name, known, hknown, Problem.eq_undeclared_of_message hmessage, hkept, hstrange⟩

-- Where nothing keeps a bundle but components whose imports can be added, healing by patches ends
-- with a bundle if and only if no error is there more often than rounds can be made.
theorem Healer.heal_success_iff (hclassifier : healer.classifier = .usual)
    (hservice : healer.service.answersPrompts = false)
    (hsettings : healer.scheduler.problem? = none) (service : ρ)
    (hplan : BuildPlan.make options files = .ok plan)
    (hspelled : (files.paths.map Path.normalize).Nodup) (hplain : PlainPaths plan.files)
    (hnames : NoAssetNames plan.files)
    (herrors : ∀ error ∈ ((Bundler.onLinker options).bundle files).1.errors,
      Addable options files plan error)
    (htakes : ∀ path ∈ reached plan.files plan.start, ∀ source,
      readable? plan.files path = some source →
        TakesImports (registered? plan.files path) source) :
    ∃ report workspace,
      healer.heal (Bundler.onLinker options) service files = .ok (report, workspace) ∧
        (report.success = true ↔ ∀ message,
          ((Bundler.onLinker options).bundle files).1.errors.countP (·.message == message) ≤
            healer.options.maxRounds) := by
  have h := Curable.of_errors hplan hspelled hplain hnames herrors htakes
  obtain ⟨report, workspace, hheal, hsuccess⟩ :=
    h.exists_report hclassifier hservice hsettings service
  refine ⟨report, workspace, hheal, hsuccess.trans ⟨fun hneed message => ?_, fun hcount name => ?_⟩⟩
  · by_cases hany : ∃ error ∈ ((Bundler.onLinker options).bundle files).1.errors,
        error.message = message
    · obtain ⟨error, herror, rfl⟩ := hany
      obtain ⟨name, _, _, hmessage, _⟩ := (herrors error herror).known
      rw [hmessage, ← h.need_eq_countP]
      exact hneed name
    · rw [List.countP_eq_zero.mpr fun error herror heq =>
        hany ⟨error, herror, beq_iff_eq.mp heq⟩]
      exact Nat.zero_le _
  · rw [h.need_eq_countP]
    exact hcount _

end Healing

end LivePreview
