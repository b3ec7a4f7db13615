import LivePreview.Proofs.Linking.BreadthFirst

namespace LivePreview.Linking

-- The files that the entry reaches through the mentions in modules that have had their turns.
inductive Reachable (files : Sources) (entry : String) (turns : List Turn) : String → Prop
  | entry : Reachable files entry turns entry
  | mention {turn : Turn} {path : String} (reachable : Reachable files entry turns turn.path)
      (hturn : turn ∈ turns) (htarget : .file path ∈ turn.targets files) :
      Reachable files entry turns path

theorem Reachable.mono {files : Sources} {entry path : String} {turns other : List Turn}
    (h : Reachable files entry turns path) (hsub : turns ⊆ other) :
    Reachable files entry other path := by
  induction h with
  | entry => exact .entry
  | mention _ hturn htarget ih => exact .mention ih (hsub hturn) htarget

namespace Walk

variable {files : Sources} {walk : Walk} {importer path : String} {source : List Char}

private theorem mem_waiting_follow {mention : Mention}
    (h : path ∈ (follow files importer source walk mention).waiting) :
    path ∈ walk.waiting ∨ files.resolve importer mention.name = .file path := by
  rcases follow_cases files importer source walk mention with
    ⟨sheet, content, htarget, hkind, heq⟩ | ⟨lead, htarget, hkind, heq⟩ |
    ⟨id, body, htarget, heq⟩ | ⟨name, htarget, heq⟩ <;>
    rw [heq] at h
  · exact .inl (by simpa using h)
  · unfold visit at h
    split at h
    · exact .inl h
    · rcases List.mem_append.mp h with h | h
      · exact .inl h
      · exact .inr (List.mem_singleton.mp h ▸ htarget)
  · split at h <;> exact .inl h
  · exact .inl h

-- A turn puts nothing in line but what its module mentions.
theorem mem_waiting_take (h : path ∈ (take files walk importer).waiting) :
    path ∈ walk.waiting ∨ .file path ∈ Turn.targets files ⟨importer, walk.count⟩ := by
  rw [take_eq] at h
  rcases mem_foldl_follow (·.waiting) (fun _ _ _ => mem_waiting_follow) h with h | ⟨mention, hm, ht⟩
  · exact .inl ((opened_same files walk importer).1 ▸ h)
  · exact .inr (List.mem_map.mpr ⟨mention, hm, ht⟩)

end Walk

namespace Turn

variable {files : Sources} {turn : Turn} {path : String}

theorem mem_leads (htarget : .file path ∈ turn.targets files)
    (hkind : FileKind.ofPath? path ≠ some .style) : path ∈ turn.leads files :=
  List.mem_filterMap.mpr ⟨_, htarget, by simp [Resolution.lead?, hkind]⟩

theorem mem_sheets_iff :
    path ∈ turn.sheets files ↔
      .file path ∈ turn.targets files ∧ FileKind.ofPath? path = some .style := by
  unfold sheets
  rw [List.mem_filterMap]
  constructor
  · rintro ⟨target, htarget, hsheet⟩
    cases target with
    | file other =>
        unfold Resolution.sheet? at hsheet
        dsimp only at hsheet
        split at hsheet
        · rename_i hkind
          cases hsheet
          exact ⟨htarget, hkind⟩
        · cases hsheet
    | _ => cases hsheet
  · rintro ⟨htarget, hkind⟩
    exact ⟨_, htarget, by simp [Resolution.sheet?, hkind]⟩

end Turn

namespace Course

variable {files : Sources} {entry path : String} {turns : List Turn} {walk : Walk}

-- What has its turn or waits is reachable through the turns so far.
theorem reachable (h : Course files entry turns walk)
    (hmem : path ∈ turns.map (·.path) ++ walk.waiting) : Reachable files entry turns path := by
  induction h generalizing path with
  | start =>
      have hpath : path = entry := by simpa [Walk.start] using hmem
      exact hpath ▸ .entry
  | @take turns walk head waiting course hwaiting ih =>
      have hgrow : turns ⊆ turns ++ [⟨head, walk.count⟩] := List.subset_append_left _ _
      have hold : path ∈ turns.map (·.path) ++ walk.waiting →
          Reachable files entry (turns ++ [⟨head, walk.count⟩]) path := fun hm => (ih hm).mono hgrow
      rw [List.map_append, List.append_assoc, List.mem_append] at hmem
      rcases hmem with hmem | hmem
      · exact hold (List.mem_append_left _ hmem)
      · have hhead : head ∈ walk.waiting := hwaiting ▸ List.mem_cons_self
        rw [List.map_singleton, List.singleton_append, List.mem_cons] at hmem
        rcases hmem with hmem | hmem
        · exact hold (List.mem_append_right _ (hmem ▸ hhead))
        · rcases Walk.mem_waiting_take hmem with hmem | htarget
          · have hlater : path ∈ walk.waiting := hwaiting ▸ List.mem_cons_of_mem _ hmem
            exact hold (List.mem_append_right _ hlater)
          · exact .mention ((ih (List.mem_append_right _ hhead)).mono hgrow)
              (List.mem_append_right _ List.mem_cons_self) htarget

-- Without findings every module that had its turn is there and counts.
theorem modules_eq_of_findings_nil (h : Course files entry turns walk)
    (hfindings : walk.findings = []) :
    walk.modules = turns.flatMap fun turn => turn.path :: turn.sheets files := by
  rw [h.modules_eq]
  refine List.flatMap_congr fun turn hturn => ?_
  rw [h.findings_eq, List.flatMap_eq_nil_iff] at hfindings
  have hnil := hfindings turn hturn
  have hcontains : files.contains turn.path = true := by
    unfold findingsOf at hnil
    split at hnil
    · cases hnil
    · rename_i content hget
      exact Sources.contains_iff.mpr ⟨content, hget⟩
  rw [if_pos hcontains]
  rfl

theorem mem_turns_of_reachable (h : Course files entry turns walk) (hnames : NoAssetNames files)
    (hwaiting : walk.waiting = []) (hreachable : Reachable files entry turns path) :
    path ∈ turns.map (·.path) ∨ path ∈ turns.flatMap (Turn.sheets files) := by
  have hpaths := h.paths_eq_eraseDups hnames hwaiting
  cases hreachable with
  | entry =>
      left
      rw [hpaths, List.mem_eraseDups]
      exact List.mem_cons_self
  | @mention turn _ _ hturn htarget =>
      by_cases hkind : FileKind.ofPath? path = some .style
      · exact .inr (List.mem_flatMap.mpr ⟨turn, hturn, Turn.mem_sheets_iff.mpr ⟨htarget, hkind⟩⟩)
      · left
        rw [hpaths, List.mem_eraseDups]
        exact List.mem_cons_of_mem _
          (List.mem_flatMap.mpr ⟨turn, hturn, Turn.mem_leads htarget hkind⟩)

end Course

private theorem count_flatMap_cons (turns : List Turn) (first : Turn → String)
    (others : Turn → List String) (path : String) :
    (turns.flatMap fun turn => first turn :: others turn).count path =
      (turns.map first).count path + (turns.flatMap others).count path := by
  induction turns with
  | nil => rfl
  | cons turn turns ih =>
      simp only [List.flatMap_cons, List.map_cons, List.count_append, List.count_cons, ih]
      omega

-- The files that take part in a linked project, told by the turns of its walk: every file that the
-- entry reaches and no other, each once but for style sheets, which count as often as they are
-- mentioned.
structure Listed (files : Sources) (entry : String) (turns : List Turn)
    (modules : List String) : Prop where
  order : modules = turns.flatMap fun turn => turn.path :: turn.sheets files
  reachable : ∀ path ∈ modules, Reachable files entry turns path
  once : ∀ path ∈ modules, FileKind.ofPath? path ≠ some .style → modules.count path = 1
  sheets : ∀ path, path ≠ entry → FileKind.ofPath? path = some .style →
    modules.count path = (turns.flatMap (Turn.sheets files)).count path
  complete : NoAssetNames files → ∀ path, Reachable files entry turns path → path ∈ modules

theorem Course.listed {files : Sources} {entry : String} {turns : List Turn} {walk : Walk}
    (h : Course files entry turns walk) (hwaiting : walk.waiting = [])
    (hfindings : walk.findings = []) : Listed files entry turns walk.modules := by
  have horder := h.modules_eq_of_findings_nil hfindings
  have hcount : ∀ path, walk.modules.count path =
      (turns.map (·.path)).count path + (turns.flatMap (Turn.sheets files)).count path :=
    fun path => horder ▸ count_flatMap_cons turns (·.path) (Turn.sheets files) path
  have hmem : ∀ path, path ∈ walk.modules ↔
      path ∈ turns.map (·.path) ∨ path ∈ turns.flatMap (Turn.sheets files) := by
    intro path
    have := hcount path
    rw [← List.one_le_count_iff, ← List.one_le_count_iff, ← List.one_le_count_iff]
    omega
  have hstyle : ∀ path ∈ turns.flatMap (Turn.sheets files),
      FileKind.ofPath? path = some .style := by
    intro path hsheet
    obtain ⟨turn, _, hsheet⟩ := List.mem_flatMap.mp hsheet
    exact (Turn.mem_sheets_iff.mp hsheet).2
  refine ⟨horder, ?_, ?_, ?_, ?_⟩
  · intro path hmodule
    rcases (hmem path).mp hmodule with hturn | hsheet
    · exact h.reachable (List.mem_append_left _ hturn)
    · obtain ⟨turn, hturn, hsheet⟩ := List.mem_flatMap.mp hsheet
      exact .mention (h.reachable (List.mem_append_left _ (List.mem_map_of_mem hturn))) hturn
        (Turn.mem_sheets_iff.mp hsheet).1
  · intro path hmodule hkind
    have hturn := ((hmem path).mp hmodule).resolve_right fun hsheet => hkind (hstyle path hsheet)
    have hnone : path ∉ turns.flatMap (Turn.sheets files) :=
      fun hsheet => hkind (hstyle path hsheet)
    rw [hcount, List.count_eq_one_of_mem h.nodup_paths hturn, List.count_eq_zero_of_not_mem hnone]
  · intro path hne hkind
    have hnone : path ∉ turns.map (·.path) := by
      intro hturn
      rcases h.inLine.known path (List.mem_append_left _ hturn) with rfl | ⟨_, hother⟩
      · exact hne rfl
      · exact hother hkind
    rw [hcount, List.count_eq_zero_of_not_mem hnone, Nat.zero_add]
  · exact fun hnames path hreachable =>
      (hmem path).mpr (h.mem_turns_of_reachable hnames hwaiting hreachable)

-- The walk comes to its end after a turn for each file and the entry at the most, however the files
-- mention each other, and a linked project lists what the walk has reached.
theorem link_listed (files : Sources) (entry : String) :
    ∃ turns, Course files entry turns (walkFrom files entry) ∧
      (walkFrom files entry).waiting = [] ∧ turns.length ≤ files.size + 1 ∧
      (turns.map (·.path)).Nodup ∧
      ∀ output, link files entry = .ok output → Listed files entry turns output.modules := by
  obtain ⟨turns, hcourse, hwaiting, hlength⟩ := exists_course files entry
  refine ⟨turns, hcourse, hwaiting, hlength, hcourse.nodup_paths, ?_⟩
  intro output hlink
  obtain ⟨hfindings, rfl⟩ := link_eq_ok_iff.mp hlink
  exact hcourse.listed hwaiting hfindings

-- A script that mentions a style sheet twice.
def sheetTwice : Sources := .ofList
  [("main.js", "import './a.css';\nimport './a.css';"), ("a.css", "b\x7b\x7d")]

theorem link_listed_sheetTwice :
    ∃ output, link sheetTwice "main.js" = .ok output ∧
      ∃ turns, Course sheetTwice "main.js" turns (walkFrom sheetTwice "main.js") ∧
        Listed sheetTwice "main.js" turns output.modules := by
  obtain ⟨output, hlink⟩ := exists_link_eq_ok_iff.mpr
    (show (walkFrom sheetTwice "main.js").findings = [] by decide +kernel)
  obtain ⟨turns, hcourse, _, _, _, hlisted⟩ := link_listed sheetTwice "main.js"
  exact ⟨output, hlink, turns, hcourse, hlisted output hlink⟩

-- Its list names the style sheet twice.
theorem link_repeats_sheetTwice :
    (link sheetTwice "main.js").toOption.map (·.modules) =
      some ["main.js", "a.css", "a.css"] := by
  decide +kernel

end LivePreview.Linking
