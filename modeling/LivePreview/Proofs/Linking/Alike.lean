import LivePreview.Proofs.Linking.BreadthFirst

namespace LivePreview.Linking

open Script

-- Two texts of a script that lead the walk to the same modules, whatever number their imports have:
-- the second one needs no more of them, and it may mention modules that are strange to the project.
structure ReadsAlike (registered? : String → Option String) (Strange : String → Prop)
    (first second : List Char) : Prop where
  balanced : structureIssue? second = none
  provides : (ExportSet.ofSource second).provides = (ExportSet.ofSource first).provides
  mentions : ∀ count other, ∀ mention ∈ (Importing.ofScript registered? other second).mentions,
    Strange mention.name ∨ ∃ before ∈ (Importing.ofScript registered? count first).mentions,
      before.name = mention.name ∧ mention.required ⊆ before.required
  kept : ∀ count other, ∀ mention ∈ (Importing.ofScript registered? count first).mentions,
    ∃ after ∈ (Importing.ofScript registered? other second).mentions, after.name = mention.name

-- The second project has the files of the first one. Of those that are reached it reads the scripts
-- alike, and the others are the same.
structure Rewritten (Strange : String → Prop) (entry : String) (first second : Sources) : Prop where
  paths : second.paths = first.paths
  resolve : second.resolve = first.resolve
  strange : ∀ name, Strange name → ∀ importer path, first.resolve importer name ≠ .file path
  texts : ∀ path ∈ reached first entry, ∃ content other, first.get? path = some content ∧
    second.get? path = some other ∧ ((readable? first path = none ∧ other = content) ∨
      (readable? first path = some content.toList ∧
        ReadsAlike (registered? first path) Strange content.toList other.toList))

section Closed

variable {files : Sources} {entry : String}

theorem path_mem_of_mem_along {turn : Turn} {count : Nat} {paths : List String}
    (h : turn ∈ Turn.along files count paths) : turn.path ∈ paths := by
  induction paths generalizing count with
  | nil => cases h
  | cons path paths ih =>
      rcases List.mem_cons.mp h with rfl | h
      · exact List.mem_cons_self
      · exact List.mem_cons_of_mem _ (ih h)

-- A set of modules that lead nowhere else holds all that is reached from one of them.
theorem reached_subset_of_closed {closed : List String} (hentry : entry ∈ closed)
    (hclosed : ∀ path ∈ closed, ∀ count, Turn.leads files ⟨path, count⟩ ⊆ closed) :
    reached files entry ⊆ closed := by
  have hwithin : ∀ distance, within files entry distance ⊆ closed := by
    intro distance
    induction distance with
    | zero => exact List.cons_subset.mpr ⟨hentry, List.nil_subset _⟩
    | succ distance ih =>
        intro path hpath
        rw [within, List.mem_eraseDups] at hpath
        rcases List.mem_cons.mp hpath with rfl | hpath
        · exact hentry
        · obtain ⟨turn, hturn, hlead⟩ := List.mem_flatMap.mp hpath
          exact hclosed turn.path (ih (path_mem_of_mem_along hturn)) turn.count hlead
  exact hwithin files.size

theorem entry_mem_reached (hnames : NoAssetNames files) : entry ∈ reached files entry := by
  obtain ⟨turns, hcourse, hwaiting, _⟩ := exists_course files entry
  rw [← hcourse.paths_eq_reached hnames hwaiting, hcourse.paths_eq_eraseDups hnames hwaiting,
    List.mem_eraseDups]
  exact List.mem_cons_self

-- A module that is reached leads only to others that are.
theorem exists_leads_subset (hnames : NoAssetNames files) {path : String}
    (h : path ∈ reached files entry) :
    ∃ count, Turn.leads files ⟨path, count⟩ ⊆ reached files entry := by
  obtain ⟨turns, hcourse, hwaiting, _⟩ := exists_course files entry
  have hpaths := hcourse.paths_eq_reached hnames hwaiting
  rw [← hpaths] at h ⊢
  obtain ⟨turn, hturn, rfl⟩ := List.mem_map.mp h
  refine ⟨turn.count, fun lead hlead => ?_⟩
  rw [hcourse.paths_eq_eraseDups hnames hwaiting, List.mem_eraseDups]
  exact List.mem_cons_of_mem _ (List.mem_flatMap.mpr ⟨turn, hturn, hlead⟩)

end Closed

namespace Rewritten

variable {Strange : String → Prop} {entry path : String} {first second : Sources}

theorem readable?_eq_some {content other : String} (hget : first.get? path = some content)
    (hother : second.get? path = some other)
    (hreadable : readable? first path = some content.toList)
    (hbalanced : structureIssue? other.toList = none) :
    readable? second path = some other.toList := by
  unfold readable? at hreadable ⊢
  rw [hget] at hreadable
  rw [hother]
  dsimp only at hreadable ⊢
  split at hreadable
  · cases hreadable
  · cases hreadable
  · rw [if_pos hbalanced]

theorem registered?_eq (h : Rewritten Strange entry first second) (path : String) :
    registered? second path = registered? first path := by
  unfold registered?
  rw [h.resolve]

theorem mem_leads_iff {files : Sources} {turn : Turn} {lead : String} :
    lead ∈ turn.leads files ↔ ∃ mention ∈ turn.mentions files,
      (files.resolve turn.path mention.name).lead? = some lead := by
  simp [Turn.leads, Turn.targets]

theorem mentions_eq {files : Sources} {turn : Turn} {source : List Char}
    (h : readable? files turn.path = some source) :
    turn.mentions files =
      (Importing.ofScript (registered? files turn.path) turn.count source).mentions := by
  rw [Turn.mentions, Turn.script?, h]
  rfl

theorem mentions_eq_nil {files : Sources} {turn : Turn} (h : readable? files turn.path = none) :
    turn.mentions files = [] := by
  rw [Turn.mentions, Turn.script?, h]
  rfl

-- In both projects a module that is reached leads to the same modules.
theorem leads_subset (h : Rewritten Strange entry first second) (hpath : path ∈ reached first entry)
    (count other : Nat) :
    Turn.leads second ⟨path, other⟩ ⊆ Turn.leads first ⟨path, count⟩ ∧
      Turn.leads first ⟨path, count⟩ ⊆ Turn.leads second ⟨path, other⟩ := by
  obtain ⟨before, after, hbefore, hafter, ⟨hnone, rfl⟩ | ⟨hsome, halike⟩⟩ := h.texts path hpath
  · have hsame : readable? second path = none := by
      unfold readable? at hnone ⊢
      rwa [hafter, ← hbefore]
    constructor <;> intro lead hlead <;> obtain ⟨mention, hmention, _⟩ := mem_leads_iff.mp hlead
    · rw [mentions_eq_nil hsame] at hmention
      cases hmention
    · rw [mentions_eq_nil hnone] at hmention
      cases hmention
  · have hread := readable?_eq_some hbefore hafter hsome halike.balanced
    constructor <;> intro lead hlead <;> obtain ⟨mention, hmention, hto⟩ := mem_leads_iff.mp hlead
    · rw [mentions_eq hread, h.registered?_eq] at hmention
      rw [h.resolve] at hto
      rcases halike.mentions count other mention hmention with hstrange | ⟨source, hsource, hname, _⟩
      · cases hresolve : first.resolve path mention.name with
        | file target => exact absurd hresolve (h.strange _ hstrange path target)
        | _ => rw [hresolve] at hto; cases hto
      · refine mem_leads_iff.mpr ⟨source, ?_, hname ▸ hto⟩
        rwa [mentions_eq hsome]
    · rw [mentions_eq hsome] at hmention
      obtain ⟨target, htarget, hname⟩ := halike.kept count other mention hmention
      refine mem_leads_iff.mpr ⟨target, ?_, ?_⟩
      · rwa [mentions_eq hread, h.registered?_eq]
      · rw [h.resolve, hname]
        exact hto

theorem noAssetNames (h : Rewritten Strange entry first second) (hnames : NoAssetNames first) :
    NoAssetNames second := by
  unfold NoAssetNames
  rwa [h.paths]

-- Both projects reach the same modules.
theorem mem_reached_iff (h : Rewritten Strange entry first second) (hnames : NoAssetNames first) :
    path ∈ reached second entry ↔ path ∈ reached first entry := by
  have hsubset : reached second entry ⊆ reached first entry := by
    refine reached_subset_of_closed (entry_mem_reached hnames) fun path hpath count => ?_
    obtain ⟨number, hleads⟩ := exists_leads_subset hnames hpath
    exact List.Subset.trans (h.leads_subset hpath number count).1 hleads
  have hnames' := h.noAssetNames hnames
  have hboth : reached first entry ⊆
      (reached first entry).filter (· ∈ reached second entry) := by
    refine reached_subset_of_closed ?_ fun path hpath count lead hlead => ?_
    · exact List.mem_filter.mpr ⟨entry_mem_reached hnames,
        decide_eq_true (entry_mem_reached hnames')⟩
    · obtain ⟨hpath, hsecond⟩ := List.mem_filter.mp hpath
      obtain ⟨number, hleads⟩ := exists_leads_subset hnames' (of_decide_eq_true hsecond)
      have hlead' := hleads ((h.leads_subset hpath count number).2 hlead)
      exact List.mem_filter.mpr ⟨hsubset hlead', decide_eq_true hlead'⟩
  exact ⟨fun hpath => hsubset hpath,
    fun hpath => of_decide_eq_true (List.mem_filter.mp (hboth hpath)).2⟩

end Rewritten

-- The findings about components that are undeclared in a script of the project.
def undeclaredFindings (files : Sources) (path : String) : List Finding :=
  (readable? files path).elim [] fun source => (undeclaredComponents source).map fun tag =>
    .at (.undeclared (String.ofList tag.1)) path source tag.2

-- Nothing else keeps the module from being linked than components that are undeclared.
def OnlyUndeclared (files : Sources) (path : String) : Prop :=
  ∀ finding ∈ findingsOf files path, ∃ name, finding.problem = .undeclared name

section

variable {files second : Sources} {path : String}

theorem readable?_eq_some_iff {source : List Char} :
    readable? files path = some source ↔ ∃ content, files.get? path = some content ∧
      FileKind.ofPath? path ≠ some .data ∧ FileKind.ofPath? path ≠ some .style ∧
      structureIssue? content.toList = none ∧ content.toList = source := by
  unfold readable?
  cases files.get? path with
  | none => simp
  | some content =>
      rcases FileKind.ofPath? path with _ | (_ | _ | _) <;> simp

theorem findingsOf_script {content : String} (hget : files.get? path = some content)
    (hdata : FileKind.ofPath? path ≠ some .data) (hstyle : FileKind.ofPath? path ≠ some .style) :
    findingsOf files path = scriptFindings files path content.toList := by
  unfold findingsOf
  rw [hget]
  rcases hkind : FileKind.ofPath? path with _ | (_ | _ | _)
  · rfl
  · rfl
  · exact absurd hkind hstyle
  · exact absurd hkind hdata

theorem findingsOf_of_readable {source : List Char} (h : readable? files path = some source) :
    findingsOf files path = undeclaredFindings files path ++
      (Form.importStatement.findAll source).flatMap (importFindings files path source) := by
  obtain ⟨content, hget, hdata, hstyle, hbalanced, rfl⟩ := readable?_eq_some_iff.mp h
  rw [findingsOf_script hget hdata hstyle, scriptFindings, hbalanced, undeclaredFindings, h]
  rfl

-- What is found in a file that is not read as a script goes by that file alone.
theorem findingsOf_of_unreadable (h : readable? files path = none)
    (hsame : second.get? path = files.get? path) :
    findingsOf second path = findingsOf files path := by
  cases hget : files.get? path with
  | none => rw [findingsOf, findingsOf, hsame, hget]
  | some content =>
      by_cases hdata : FileKind.ofPath? path = some .data
      · rw [findingsOf, findingsOf, hsame, hget, hdata]
      by_cases hstyle : FileKind.ofPath? path = some .style
      · rw [findingsOf, findingsOf, hsame, hget, hstyle]
      rw [findingsOf_script hget hdata hstyle, findingsOf_script (hsame.trans hget) hdata hstyle]
      unfold scriptFindings
      split
      · rfl
      · rename_i hbalanced
        rw [readable?_eq_some_iff.mpr ⟨content, hget, hdata, hstyle, hbalanced, rfl⟩] at h
        cases h

theorem findingsOf_eq_nil_of_unreadable (h : readable? files path = none)
    (honly : OnlyUndeclared files path) : findingsOf files path = [] := by
  refine List.eq_nil_iff_forall_not_mem.mpr fun finding hfinding => ?_
  obtain ⟨name, hname⟩ := honly finding hfinding
  cases hget : files.get? path with
  | none =>
      rw [findingsOf, hget] at hfinding
      rw [List.mem_singleton.mp hfinding] at hname
      cases hname
  | some content =>
      by_cases hdata : FileKind.ofPath? path = some .data
      · rw [findingsOf, hget, hdata] at hfinding
        dsimp only at hfinding
        split at hfinding
        · cases hfinding
        · rw [List.mem_singleton.mp hfinding] at hname
          cases hname
      by_cases hstyle : FileKind.ofPath? path = some .style
      · rw [findingsOf, hget, hstyle] at hfinding
        cases hfinding
      rw [findingsOf_script hget hdata hstyle] at hfinding
      unfold scriptFindings at hfinding
      split at hfinding
      · rw [List.mem_singleton.mp hfinding] at hname
        cases hname
      · rename_i hbalanced
        rw [readable?_eq_some_iff.mpr ⟨content, hget, hdata, hstyle, hbalanced, rfl⟩] at h
        cases h

theorem importFindings_eq_nil {source : List Char} (h : readable? files path = some source)
    (honly : OnlyUndeclared files path) :
    (Form.importStatement.findAll source).flatMap (importFindings files path source) = [] := by
  refine List.eq_nil_iff_forall_not_mem.mpr fun finding hfinding => ?_
  obtain ⟨name, hname⟩ := honly finding (by
    rw [findingsOf_of_readable h]
    exact List.mem_append_right _ hfinding)
  obtain ⟨found, _, hfound⟩ := List.mem_flatMap.mp hfinding
  unfold importFindings at hfound
  split at hfound
  · cases hfound
  · split at hfound
    · split at hfound
      · obtain ⟨required, _, rfl⟩ := List.mem_map.mp hfound
        cases hname
      · cases hfound
    · cases hfound

end

namespace Rewritten

variable {Strange : String → Prop} {entry path : String} {first second : Sources}

theorem provided_eq (h : Rewritten Strange entry first second)
    (hpath : path ∈ reached first entry) :
    provided second path = provided first path := by
  obtain ⟨before, after, hbefore, hafter, ⟨hnone, rfl⟩ | ⟨hsome, halike⟩⟩ := h.texts path hpath
  · funext name
    rw [provided, provided, hbefore, hafter]
  · funext name
    rw [provided, provided, hbefore, hafter, Option.any_some, Option.any_some, halike.provides]

-- A mention that finds nothing missing in the first project does so in the second one.
theorem mentionFindings_eq_nil (h : Rewritten Strange entry first second)
    (hnames : NoAssetNames first) (hpath : path ∈ reached first entry) {source text : List Char}
    (hsource : readable? first path = some source) {count : Nat} {before mention : Mention}
    (hbefore : before ∈ (Importing.ofScript (registered? first path) count source).mentions)
    (hname : before.name = mention.name) (hrequired : mention.required ⊆ before.required)
    (hnil : mentionFindings first path source before = []) :
    mentionFindings second path text mention = [] := by
  unfold mentionFindings at hnil ⊢
  rw [h.resolve, ← hname]
  cases hresolve : first.resolve path before.name with
  | file target =>
      rw [hresolve] at hnil
      dsimp only at hnil ⊢
      split
      · rename_i hkind
        rw [if_pos hkind] at hnil
        have hlead : target ∈ Turn.leads first ⟨path, count⟩ := by
          refine mem_leads_iff.mpr ⟨before, ?_, ?_⟩
          · rwa [mentions_eq hsource]
          · rw [hresolve, Resolution.lead?, hkind]
            rfl
        obtain ⟨number, hleads⟩ := exists_leads_subset hnames hpath
        have htarget : target ∈ reached first entry :=
          hleads ((h.leads_subset hpath number 0).1 ((h.leads_subset hpath count 0).2 hlead))
        have hcontains := Sources.contains_of_resolve hresolve
        have hcontains' : second.contains target = true := by
          rw [← Sources.mem_paths_iff] at hcontains ⊢
          rwa [h.paths]
        rw [missingExports_eq hcontains, List.map_eq_nil_iff] at hnil
        rw [missingExports_eq hcontains', List.map_eq_nil_iff, h.provided_eq htarget]
        refine List.filter_eq_nil_iff.mpr fun name hmem => ?_
        exact List.filter_eq_nil_iff.mp hnil name (hrequired hmem)
      · rfl
  | _ => rfl

-- If nothing but undeclared components keeps the first project from being linked, nothing else keeps
-- the second one from it.
theorem findingsOf_eq (h : Rewritten Strange entry first second) (hnames : NoAssetNames first)
    (honly : ∀ path ∈ reached first entry, OnlyUndeclared first path)
    (hpath : path ∈ reached first entry) :
    findingsOf second path = undeclaredFindings second path := by
  obtain ⟨before, after, hbefore, hafter, ⟨hnone, rfl⟩ | ⟨hsome, halike⟩⟩ := h.texts path hpath
  · have hsame : second.get? path = first.get? path := hafter.trans hbefore.symm
    have hread : readable? second path = none := by
      unfold readable? at hnone ⊢
      rwa [hsame]
    rw [findingsOf_of_unreadable hnone hsame, undeclaredFindings, hread,
      findingsOf_eq_nil_of_unreadable hnone (honly path hpath)]
    rfl
  · have hread := readable?_eq_some hbefore hafter hsome halike.balanced
    have hnil := importFindings_eq_nil hsome (honly path hpath)
    rw [← flatMap_mentionFindings 0, List.flatMap_eq_nil_iff] at hnil
    have hlater : (Form.importStatement.findAll after.toList).flatMap
        (importFindings second path after.toList) = [] := by
      rw [← flatMap_mentionFindings 0, List.flatMap_eq_nil_iff, h.registered?_eq]
      intro mention hmention
      rcases halike.mentions 0 0 mention hmention with hstrange | ⟨source, hmem, hname, hrequired⟩
      · unfold mentionFindings
        rw [h.resolve]
        cases hresolve : first.resolve path mention.name with
        | file target => exact absurd hresolve (h.strange _ hstrange path target)
        | _ => rfl
      · exact h.mentionFindings_eq_nil hnames hpath hsome hmem hname hrequired (hnil source hmem)
    rw [findingsOf_of_readable hread, hlater, List.append_nil]

end Rewritten

end LivePreview.Linking
