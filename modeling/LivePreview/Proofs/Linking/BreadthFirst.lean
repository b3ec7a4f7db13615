import LivePreview.Proofs.Linking.Course

namespace LivePreview.Linking

section EraseDups

variable {names : List String} {name : String}

theorem eraseDups_concat_of_mem (h : name ∈ names) :
    (names ++ [name]).eraseDups = names.eraseDups := by
  have hnil : [name].removeAll names = [] := by simp [List.removeAll, h]
  rw [List.eraseDups_append, hnil, List.eraseDups_nil, List.append_nil]

theorem eraseDups_concat_of_notMem (h : name ∉ names) :
    (names ++ [name]).eraseDups = names.eraseDups ++ [name] := by
  have hsame : [name].removeAll names = [name] := by simp [List.removeAll, h]
  rw [List.eraseDups_append, hsame, List.eraseDups_cons]
  rfl

theorem prefix_eraseDups {first second : List String} (h : first <+: second) :
    first.eraseDups <+: second.eraseDups := by
  obtain ⟨later, rfl⟩ := h
  rw [List.eraseDups_append]
  exact List.prefix_append _ _

end EraseDups

-- The modules at most so many mentions away from the entry, each once, in the order in which the
-- modules nearer to the entry mention them.
def within (files : Sources) (entry : String) : Nat → List String
  | 0 => [entry]
  | distance + 1 =>
    (entry :: (Turn.along files 0 (within files entry distance)).flatMap
      (Turn.leads files)).eraseDups

-- All modules that are reached from the entry, in breadth-first order of their first mention.
def reached (files : Sources) (entry : String) : List String := within files entry files.size

-- No file is called like the stand-in of an asset.
def NoAssetNames (files : Sources) : Prop :=
  ∀ path ∈ files.paths, ¬"asset:".toList <+: path.toList

-- The line while the modules in `found` are mentioned, with repetitions, in this order.
structure Ordered (taken found : List String) (walk : Walk) : Prop where
  line : taken ++ walk.waiting = found.eraseDups
  noted : found ⊆ walk.seen
  seen : ∀ id ∈ walk.seen, id ∈ found ∨ "asset:".toList <+: id.toList

namespace Ordered

variable {files : Sources} {taken found : List String} {walk : Walk}

theorem of_eq {other : Walk} (h : Ordered taken found walk)
    (hwaiting : other.waiting = walk.waiting) (hseen : other.seen = walk.seen) :
    Ordered taken found other := by
  obtain ⟨line, noted, seen⟩ := h
  rw [← hwaiting] at line
  rw [← hseen] at noted seen
  exact ⟨line, noted, seen⟩

theorem report (h : Ordered taken found walk) (findings : List Finding) :
    Ordered taken found (walk.report findings) := h.of_eq rfl rfl

theorem visit (h : Ordered taken found walk) {path : String}
    (hname : ¬"asset:".toList <+: path.toList) :
    Ordered taken (found ++ [path]) (walk.visit path) := by
  unfold Walk.visit
  split
  · rename_i hseen
    rw [List.contains_iff_mem] at hseen
    have hfound : path ∈ found := (h.seen path hseen).resolve_right hname
    refine ⟨?_, ?_, ?_⟩
    · rw [eraseDups_concat_of_mem hfound, h.line]
    · exact List.append_subset.mpr ⟨h.noted, by simpa using hseen⟩
    · exact fun id hid => (h.seen id hid).imp (List.mem_append_left _) fun hasset => hasset
  · rename_i hnew
    rw [List.contains_iff_mem] at hnew
    have hnotFound : path ∉ found := fun hmem => hnew (h.noted hmem)
    refine ⟨?_, ?_, ?_⟩
    · rw [eraseDups_concat_of_notMem hnotFound, ← h.line, List.append_assoc]
    · exact List.append_subset.mpr ⟨List.Subset.trans h.noted (List.subset_append_left _ _),
        List.subset_append_right _ _⟩
    · intro id hid
      rcases List.mem_append.mp hid with hid | hid
      · exact (h.seen id hid).imp (List.mem_append_left _) fun hasset => hasset
      · exact .inl (List.mem_append_right _ hid)

theorem follow (h : Ordered taken found walk) (hnames : NoAssetNames files) (importer : String)
    (source : List Char) (mention : Mention) :
    Ordered taken (found ++ (files.resolve importer mention.name).lead?.toList)
      (Walk.follow files importer source walk mention) := by
  rcases Walk.follow_cases files importer source walk mention with
    ⟨path, content, htarget, hkind, heq⟩ | ⟨path, htarget, hkind, heq⟩ |
    ⟨id, body, htarget, heq⟩ | ⟨name, htarget | htarget, heq⟩ <;>
    rw [heq, htarget]
  · rw [show (Resolution.file path).lead? = none by simp [Resolution.lead?, hkind],
      Option.toList_none, List.append_nil]
    exact h.of_eq (Walk.waiting_style ..) (Walk.seen_style ..)
  · rw [show (Resolution.file path).lead? = some path by simp [Resolution.lead?, hkind],
      Option.toList_some]
    exact (h.report _).visit
      (hnames path (Sources.mem_paths_iff.mpr (Sources.contains_of_resolve htarget)))
  · rw [show (Resolution.asset id body).lead? = none from rfl, Option.toList_none, List.append_nil]
    split
    · exact h
    · refine ⟨h.line, List.Subset.trans h.noted (List.subset_append_left _ _), ?_⟩
      intro other hother
      rcases List.mem_append.mp hother with hother | hother
      · exact h.seen other hother
      · rw [List.mem_singleton.mp hother]
        exact .inr (Sources.standIn_of_resolve htarget).1
  · rw [show (Resolution.package name).lead? = none from rfl, Option.toList_none, List.append_nil]
    exact h.of_eq rfl rfl
  · rw [show (Resolution.unknown name).lead? = none from rfl, Option.toList_none, List.append_nil]
    exact h.of_eq rfl rfl

theorem foldl_follow (h : Ordered taken found walk) (hnames : NoAssetNames files)
    (importer : String) (source : List Char) (mentions : List Mention) :
    Ordered taken
      (found ++ mentions.flatMap fun mention => (files.resolve importer mention.name).lead?.toList)
      (mentions.foldl (Walk.follow files importer source) walk) := by
  induction mentions generalizing found walk with
  | nil => simpa using h
  | cons mention mentions ih =>
      rw [List.flatMap_cons, ← List.append_assoc]
      exact ih (h.follow hnames importer source mention)

-- A turn takes the head of the line and puts the leads of its module behind the line.
theorem take {path : String} {waiting : List String} (h : Ordered taken found walk)
    (hnames : NoAssetNames files) (hwaiting : walk.waiting = path :: waiting) :
    Ordered (taken ++ [path]) (found ++ Turn.leads files ⟨path, walk.count⟩)
      (Walk.take files { walk with waiting := waiting } path) := by
  have hhead : Ordered (taken ++ [path]) found { walk with waiting := waiting } := by
    obtain ⟨line, noted, seen⟩ := h
    rw [hwaiting, List.append_cons] at line
    exact ⟨line, noted, seen⟩
  rw [Walk.take_eq, Turn.leads, Turn.targets, List.filterMap_map, List.filterMap_eq_flatMap_toList]
  obtain ⟨hline, hseen, _⟩ := Walk.opened_same files { walk with waiting := waiting } path
  exact ((hhead.of_eq hline hseen).foldl_follow hnames _ _ _).of_eq rfl rfl

end Ordered

namespace Course

variable {files : Sources} {entry : String} {turns : List Turn} {walk : Walk}

theorem ordered (h : Course files entry turns walk) (hnames : NoAssetNames files) :
    Ordered (turns.map (·.path)) (entry :: turns.flatMap (Turn.leads files)) walk := by
  induction h with
  | start => exact ⟨rfl, List.Subset.refl _, fun id hid => .inl hid⟩
  | take course hwaiting ih =>
      rw [List.map_append, List.flatMap_append, List.map_singleton, List.flatMap_singleton]
      exact ih.take hnames hwaiting

-- A module other than the entry has its turn because a module before it leads there.
theorem mem_leads_of_split (h : Course files entry turns walk) (hnames : NoAssetNames files)
    {earlier later : List String} {path : String}
    (hsplit : turns.map (·.path) = earlier ++ path :: later) :
    path ∈ entry :: (Turn.along files 0 earlier).flatMap (Turn.leads files) := by
  induction h generalizing later with
  | start =>
      have hlength := congrArg List.length hsplit
      simp at hlength
  | @take turns walk head waiting course hwaiting ih =>
      rw [List.map_append, List.map_singleton] at hsplit
      rcases List.eq_nil_or_concat' later with rfl | ⟨later, last, rfl⟩
      · obtain ⟨rfl, hlast⟩ := List.append_inj' hsplit rfl
        obtain rfl : head = path := by simpa using hlast
        rw [← course.turns_eq]
        have hmem : head ∈ turns.map (·.path) ++ walk.waiting := by simp [hwaiting]
        rw [(course.ordered hnames).line, List.mem_eraseDups] at hmem
        exact hmem
      · rw [← List.cons_append, ← List.append_assoc] at hsplit
        exact ih (List.append_inj' hsplit rfl).1

-- When nothing waits any more, every lead has been followed.
theorem paths_eq_eraseDups (h : Course files entry turns walk) (hnames : NoAssetNames files)
    (hwaiting : walk.waiting = []) :
    turns.map (·.path) = (entry :: turns.flatMap (Turn.leads files)).eraseDups := by
  have hline := (h.ordered hnames).line
  rwa [hwaiting, List.append_nil] at hline

theorem nodup_paths (h : Course files entry turns walk) : (turns.map (·.path)).Nodup :=
  (List.nodup_append.mp (h.inLine.distinct.sublist h.inLine.order)).1

private theorem prefix_within (h : Course files entry turns walk) (hnames : NoAssetNames files)
    (hwaiting : walk.waiting = []) (distance : Nat) :
    within files entry distance <+: turns.map (·.path) := by
  have hpaths := h.paths_eq_eraseDups hnames hwaiting
  cases distance with
  | zero =>
      rw [hpaths, within, List.eraseDups_cons]
      exact ⟨_, rfl⟩
  | succ distance =>
      obtain ⟨later, hlater⟩ := h.prefix_within hnames hwaiting distance
      rw [hpaths, within]
      refine prefix_eraseDups (List.cons_prefix_cons.mpr ⟨rfl, ?_⟩)
      rw [h.turns_eq, ← hlater, Turn.along_append, List.flatMap_append]
      exact List.prefix_append _ _

-- One more step finds at least one more module, until all are found.
private theorem length_within (h : Course files entry turns walk) (hnames : NoAssetNames files)
    (hwaiting : walk.waiting = []) (distance : Nat) :
    min (distance + 1) turns.length ≤ (within files entry distance).length := by
  induction distance with
  | zero => exact Nat.min_le_left _ _
  | succ distance ih =>
      obtain ⟨later, hlater⟩ := h.prefix_within hnames hwaiting distance
      have hnext := h.prefix_within hnames hwaiting (distance + 1)
      have hlength := congrArg List.length hlater
      rw [List.length_append, List.length_map] at hlength
      cases later with
      | nil =>
          rw [List.append_nil] at hlater
          have hall : within files entry (distance + 1) = turns.map (·.path) := by
            rw [within, hlater, ← h.turns_eq, ← h.paths_eq_eraseDups hnames hwaiting]
          rw [hall, List.length_map]
          exact Nat.min_le_right _ _
      | cons path later =>
          have hpath : path ∈ within files entry (distance + 1) := by
            rw [within, List.mem_eraseDups]
            exact h.mem_leads_of_split hnames hlater.symm
          have hlonger : (within files entry distance).length <
              (within files entry (distance + 1)).length := by
            by_contra hshort
            have hnodup := h.nodup_paths
            rw [← hlater] at hnodup
            have hsub := (List.prefix_of_prefix_length_le hnext ⟨_, hlater⟩ (by omega)).subset
            exact (List.disjoint_of_nodup_append hnodup) (hsub hpath) List.mem_cons_self
          omega

-- The turns of the whole walk go through the modules in breadth-first order.
theorem paths_eq_reached (h : Course files entry turns walk) (hnames : NoAssetNames files)
    (hwaiting : walk.waiting = []) : turns.map (·.path) = reached files entry := by
  have hwithin := h.prefix_within hnames hwaiting files.size
  have hlength := h.length_within hnames hwaiting files.size
  have hle := h.inLine.length_le
  rw [List.length_map] at hle
  refine (hwithin.eq_of_length_le ?_).symm
  rw [List.length_map]
  omega

end Course

theorem nodup_reached {files : Sources} (hnames : NoAssetNames files) (entry : String) :
    (reached files entry).Nodup := by
  obtain ⟨turns, hcourse, hwaiting, _⟩ := exists_course files entry
  exact hcourse.paths_eq_reached hnames hwaiting ▸ hcourse.nodup_paths

-- Each module that the entry reaches is read once, in breadth-first order.
theorem findings_walkFrom {files : Sources} (hnames : NoAssetNames files) (entry : String) :
    (walkFrom files entry).findings = (reached files entry).flatMap (findingsOf files) := by
  obtain ⟨turns, hcourse, hwaiting, _⟩ := exists_course files entry
  rw [hcourse.findings_eq, ← hcourse.paths_eq_reached hnames hwaiting, List.flatMap_map]

-- A project is linked unless there is a finding about a module that the entry reaches. Otherwise
-- the answer is all findings about these modules, each module being read once, in breadth-first
-- order.
theorem link_findings {files : Sources} (hnames : NoAssetNames files) (entry : String) :
    (reached files entry).Nodup ∧
      (∀ findings, link files entry = .error findings ↔
        findings = (reached files entry).flatMap (findingsOf files) ∧ findings ≠ []) ∧
      ((∃ output, link files entry = .ok output) ↔
        (reached files entry).flatMap (findingsOf files) = []) := by
  rw [← findings_walkFrom hnames entry]
  exact ⟨nodup_reached hnames entry, fun _ => link_eq_error_iff, exists_link_eq_ok_iff⟩

-- A script that is not balanced behind one that lacks an export and a file that is no data.
def threeFaults : Sources := .ofList
  [("main.js", "import \x7b a \x7d from './a.js';\nimport './b.js';\nimport './c.json';\n"),
    ("a.js", "import './b.js';\nexport const b = 1;\n"), ("b.js", "("), ("c.json", "[1,")]

theorem link_findings_threeFaults :
    NoAssetNames threeFaults ∧ (reached threeFaults "main.js").Nodup ∧
      (∀ findings, link threeFaults "main.js" = .error findings ↔
        findings = (reached threeFaults "main.js").flatMap (findingsOf threeFaults) ∧
          findings ≠ []) ∧
      ((∃ output, link threeFaults "main.js" = .ok output) ↔
        (reached threeFaults "main.js").flatMap (findingsOf threeFaults) = []) := by
  have hnames : NoAssetNames threeFaults := by
    unfold NoAssetNames
    decide
  exact ⟨hnames, link_findings hnames "main.js"⟩

-- A script with the name of the stand-in of an asset that is mentioned before it.
def assetClash : Sources := .ofList
  [("main.js", "import './logo.png?v.js';\nimport 'asset:logo.png?v.js';"),
    ("asset:logo.png?v.js", "(")]

-- The script is reached and not balanced, but the project is linked: for the walk it was seen when
-- the asset was.
theorem link_misses_assetClash :
    (reached assetClash "main.js").flatMap (findingsOf assetClash) ≠ [] ∧
      ∃ output, link assetClash "main.js" = .ok output :=
  ⟨by decide +kernel, exists_link_eq_ok_iff.mpr (by decide +kernel)⟩

end LivePreview.Linking
