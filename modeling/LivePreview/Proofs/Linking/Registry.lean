import LivePreview.Proofs.Linking.Growth

namespace LivePreview.Linking

-- Each identifier that was seen is held once: by a definition, in line, or by a turn that lasts.
def Balanced (current : List String) (walk : Walk) : Prop :=
  ∀ id, (walk.definitions.map (·.1)).count id + walk.waiting.count id + current.count id =
    walk.seen.count id

-- Where a definition comes from.
inductive Emitted (files : Sources) (turns : List Turn) : String × List Char → Prop
  | own {turn : Turn} {definition : String × List Char} (hturn : turn ∈ turns)
      (hdefinition : turn.definition? files = some definition) : Emitted files turns definition
  | standIn {turn : Turn} {mention : Mention} {id source : String} (hturn : turn ∈ turns)
      (hmention : mention ∈ turn.mentions files)
      (htarget : files.resolve turn.path mention.name = .asset id source) :
      Emitted files turns (id, assignExports source.toList)

theorem Emitted.mono {files : Sources} {turns other : List Turn} {definition : String × List Char}
    (h : Emitted files turns definition) (hsub : turns ⊆ other) :
    Emitted files other definition := by
  cases h with
  | own hturn hdefinition => exact .own (hsub hturn) hdefinition
  | standIn hturn hmention htarget => exact .standIn (hsub hturn) hmention htarget

namespace Walk

variable {files : Sources} {walk : Walk} {importer : String} {source : List Char}
  {mention : Mention}

-- What following a mention defines is the stand-in of an asset.
theorem mem_definitions_follow {definition : String × List Char}
    (h : definition ∈ (follow files importer source walk mention).definitions) :
    definition ∈ walk.definitions ∨ ∃ id body,
      files.resolve importer mention.name = .asset id body ∧
        definition = (id, assignExports body.toList) := by
  rcases follow_cases files importer source walk mention with
    ⟨path, content, htarget, hkind, heq⟩ | ⟨path, htarget, hkind, heq⟩ |
    ⟨asset, body, htarget, heq⟩ | ⟨name, htarget, heq⟩ <;>
    rw [heq] at h
  · exact .inl (by simpa using h)
  · exact .inl (by simpa [report] using h)
  · split at h
    · exact .inl h
    · rcases List.mem_append.mp h with h | h
      · exact .inl h
      · exact .inr ⟨asset, body, htarget, List.mem_singleton.mp h⟩
  · exact .inl h

end Walk

namespace Balanced

variable {files : Sources} {walk : Walk} {current : List String} {importer : String}
  {source : List Char}

theorem report (h : Balanced current walk) (findings : List Finding) :
    Balanced current (walk.report findings) := h

theorem visit (h : Balanced current walk) (path : String) : Balanced current (walk.visit path) := by
  unfold Walk.visit
  split
  · exact h
  · intro id
    have hid := h id
    simp only [List.count_append]
    omega

theorem follow (h : Balanced current walk) (mention : Mention) :
    Balanced current (Walk.follow files importer source walk mention) := by
  rcases Walk.follow_cases files importer source walk mention with
    ⟨path, content, htarget, hkind, heq⟩ | ⟨path, htarget, hkind, heq⟩ |
    ⟨asset, body, htarget, heq⟩ | ⟨name, htarget, heq⟩ <;>
    rw [heq]
  · intro id
    simpa using h id
  · exact (h.report _).visit path
  · split
    · exact h
    · intro id
      have hid := h id
      simp only [Walk.define, List.map_append, List.map_singleton, List.count_append]
      omega
  · exact h

theorem foldl_follow (h : Balanced current walk) (mentions : List Mention) :
    Balanced current (mentions.foldl (Walk.follow files importer source) walk) :=
  List.foldlRecOn mentions _ h fun _ hwalk mention _ => hwalk.follow mention

-- A turn that ends with the definition of its module leaves nothing open.
theorem take {path : String} {waiting : List String} {body : List Char} (h : Balanced [] walk)
    (hwaiting : walk.waiting = path :: waiting)
    (hdefinition : Turn.definition? files ⟨path, walk.count⟩ = some (path, body)) :
    Balanced [] (Walk.take files { walk with waiting := waiting } path) := by
  obtain ⟨hline, hseen, hdefinitions, _⟩ :=
    Walk.opened_same files { walk with waiting := waiting } path
  have hopen : Balanced [path] (Walk.opened files { walk with waiting := waiting } path) := by
    intro id
    have hid := h id
    rw [hwaiting] at hid
    rw [hline, hseen, hdefinitions]
    simp only [List.count_cons, List.count_nil] at hid ⊢
    omega
  rw [Walk.take_eq]
  have hfollowed : Balanced [path] ((Turn.mentions files ⟨path, walk.count⟩).foldl
      (Walk.follow files path (Walk.sourceOf files path))
      (Walk.opened files { walk with waiting := waiting } path)) := hopen.foldl_follow _
  intro id
  have hid := hfollowed id
  simp only [Walk.defineAll, hdefinition, Option.toList_some, List.map_append, List.map_singleton,
    List.count_append, List.count_nil] at hid ⊢
  omega

end Balanced

-- A module without findings is defined, unless it is a style sheet.
theorem Turn.exists_definition? {files : Sources} {turn : Turn}
    (hkind : FileKind.ofPath? turn.path ≠ some .style) (h : findingsOf files turn.path = []) :
    ∃ body, turn.definition? files = some (turn.path, body) := by
  have hscript : ∀ content, scriptFindings files turn.path content = [] →
      readable? files turn.path =
        (if Script.structureIssue? content = none then some content else none) →
      ∃ body, ((turn.script? files).map fun script => (turn.path, assignExports script.body)) =
        some (turn.path, body) := by
    intro content hnil hread
    unfold scriptFindings at hnil
    cases hissue : Script.structureIssue? content with
    | some issue =>
        rw [hissue] at hnil
        cases hnil
    | none =>
        rw [hissue, if_pos rfl] at hread
        simp [script?, hread]
  unfold findingsOf at h
  unfold definition?
  cases hget : files.get? turn.path with
  | none =>
      rw [hget] at h
      cases h
  | some content =>
      rw [hget] at h
      dsimp only at h ⊢
      cases hof : FileKind.ofPath? turn.path with
      | none =>
          rw [hof] at h
          exact hscript content.toList h (by simp [readable?, hget, hof])
      | some kind =>
          rw [hof] at h hkind
          cases kind with
          | script => exact hscript content.toList h (by simp [readable?, hget, hof])
          | style => exact absurd rfl hkind
          | data =>
              dsimp only at h ⊢
              cases hparse : Json.parse content with
              | ok value => simp [Except.toOption]
              | error e =>
                  rw [hparse] at h
                  cases h

namespace Course

variable {files : Sources} {entry : String} {turns : List Turn} {walk : Walk}

theorem kind_of_mem (h : Course files entry turns walk)
    (hentry : FileKind.ofPath? entry ≠ some .style) {path : String}
    (hmem : path ∈ turns.map (·.path) ++ walk.waiting) : FileKind.ofPath? path ≠ some .style := by
  rcases h.inLine.known path hmem with rfl | ⟨_, hkind⟩
  · exact hentry
  · exact hkind

-- As long as nothing is found, what was seen is defined or waits.
theorem balanced (h : Course files entry turns walk)
    (hentry : FileKind.ofPath? entry ≠ some .style) (hfindings : walk.findings = []) :
    Balanced [] walk := by
  induction h with
  | start => intro id; simp [Walk.start]
  | @take turns walk path waiting course hwaiting ih =>
      rw [Walk.findings_take, List.append_eq_nil_iff] at hfindings
      have hkind : FileKind.ofPath? path ≠ some .style :=
        course.kind_of_mem hentry (by simp [hwaiting])
      obtain ⟨body, hdefinition⟩ :
          ∃ body, Turn.definition? files ⟨path, walk.count⟩ = some (path, body) :=
        Turn.exists_definition? hkind hfindings.2
      exact (ih hfindings.1).take hwaiting hdefinition

theorem definition_mem (h : Course files entry turns walk) {turn : Turn} (hturn : turn ∈ turns)
    {definition : String × List Char} (hdefinition : turn.definition? files = some definition) :
    definition ∈ walk.definitions := by
  induction h with
  | start => cases hturn
  | @take turns walk path waiting course hwaiting ih =>
      rcases List.mem_append.mp hturn with hold | hlast
      · exact (Walk.Grows.take files { walk with waiting := waiting } path).definitions (ih hold)
      · rw [List.mem_singleton] at hlast
        subst hlast
        rw [Walk.take_eq]
        refine List.mem_append_right _ ?_
        rw [Option.mem_toList]
        exact hdefinition

theorem emitted (h : Course files entry turns walk) :
    ∀ definition ∈ walk.definitions, Emitted files turns definition := by
  induction h with
  | start => simp [Walk.start]
  | @take turns walk path waiting course hwaiting ih =>
      intro definition hmem
      have hlast : (⟨path, walk.count⟩ : Turn) ∈ turns ++ [⟨path, walk.count⟩] :=
        List.mem_append_right _ List.mem_cons_self
      rw [Walk.take_eq] at hmem
      rcases List.mem_append.mp hmem with hmem | hown
      · obtain ⟨_, _, hdefinitions, _⟩ :=
          Walk.opened_same files { walk with waiting := waiting } path
        rcases Walk.mem_foldl_follow (·.definitions) (fun _ _ _ => Walk.mem_definitions_follow) hmem
          with hold | ⟨mention, hm, id, body, ht, rfl⟩
        · rw [hdefinitions] at hold
          exact (ih definition hold).mono (List.subset_append_left _ _)
        · exact .standIn hlast hm ht
      · exact .own hlast (Option.mem_toList.mp hown)

end Course

-- What becomes of the places in a module at which other modules are mentioned.
def Turn.replacements (files : Sources) (turn : Turn) : List Replacement :=
  (readable? files turn.path).elim []
    (Importing.replacementsOf (registered? files turn.path) turn.count)

theorem Turn.mentions_eq (files : Sources) (turn : Turn) :
    turn.mentions files = (turn.replacements files).filterMap (·.mention?) := by
  unfold mentions script? replacements
  cases readable? files turn.path with
  | none => rfl
  | some source => exact Importing.mentions_ofScript _ _ _

theorem Turn.exists_source {files : Sources} {turn : Turn} {replacement : Replacement}
    (h : replacement ∈ turn.replacements files) :
    ∃ source, readable? files turn.path = some source ∧
      replacement ∈ Importing.replacementsOf (registered? files turn.path) turn.count source := by
  unfold replacements at h
  cases hread : readable? files turn.path with
  | none =>
      rw [hread] at h
      cases h
  | some source =>
      rw [hread] at h
      exact ⟨source, rfl, h⟩

-- A registry that has an answer to every request in it.
structure Closed (files : Sources) (entry : String) (turns : List Turn) (walk : Walk) : Prop where
  distinct : (walk.definitions.map (·.1)).Nodup
  entry : entry ∈ walk.definitions.map (·.1)
  emitted : ∀ definition ∈ walk.definitions, Emitted files turns definition
  defined : ∀ turn ∈ turns, ∃ body, turn.definition? files = some (turn.path, body) ∧
    (turn.path, body) ∈ walk.definitions
  answered : ∀ turn ∈ turns, ∀ replacement ∈ turn.replacements files, ∀ id,
    replacement.asks? (registered? files turn.path) = some id →
      request id <:+: replacement.text ∧
        ((walk.definitions.map (·.1)).count id = 1 ∨ id ∈ walk.outside.packages.toList ∨
          ∃ importer, Outside.unknownWarning importer id ∈ walk.outside.warnings)

theorem Course.closed {files : Sources} {entry : String} {turns : List Turn} {walk : Walk}
    (h : Course files entry turns walk) (hwaiting : walk.waiting = [])
    (hentry : FileKind.ofPath? entry ≠ some .style) (hfindings : walk.findings = []) :
    Closed files entry turns walk := by
  have hcount : ∀ id, (walk.definitions.map (·.1)).count id = walk.seen.count id := by
    intro id
    have hid := h.balanced hentry hfindings id
    rw [hwaiting] at hid
    simpa using hid
  have hdistinct := h.inLine.distinct
  have hdefined : ∀ turn ∈ turns, ∃ body, turn.definition? files = some (turn.path, body) ∧
      (turn.path, body) ∈ walk.definitions := by
    intro turn hturn
    have hnil : findingsOf files turn.path = [] := by
      rw [h.findings_eq, List.flatMap_eq_nil_iff] at hfindings
      exact hfindings turn hturn
    have hkind := h.kind_of_mem hentry
      (List.mem_append_left _ (List.mem_map_of_mem (f := (·.path)) hturn))
    obtain ⟨body, hdefinition⟩ := Turn.exists_definition? hkind hnil
    exact ⟨body, hdefinition, h.definition_mem hturn hdefinition⟩
  constructor
  · rw [List.nodup_iff_count_le_one] at hdistinct ⊢
    exact fun id => hcount id ▸ hdistinct id
  · rw [← List.one_le_count_iff, hcount, List.one_le_count_iff]
    exact h.entry_mem_seen
  · exact h.emitted
  · exact hdefined
  · intro turn hturn replacement hreplacement id hid
    obtain ⟨source, _, hmem⟩ := Turn.exists_source hreplacement
    refine ⟨Importing.infix_text_of_asks hmem hid, ?_⟩
    obtain ⟨mention, hmention, hregistered⟩ := Option.bind_eq_some_iff.mp hid
    have hin : mention ∈ turn.mentions files := by
      rw [Turn.mentions_eq]
      exact List.mem_filterMap.mpr ⟨replacement, hreplacement, hmention⟩
    rcases h.answered hturn hin hregistered with hseen | hpackage | hwarning
    · exact .inl (hcount id ▸ List.count_eq_one_of_mem hdistinct hseen)
    · exact .inr (.inl hpackage)
    · exact .inr (.inr ⟨turn.path, hwarning⟩)

-- Two scripts that import each other, an asset and a package.
def mutualImports : Sources := .ofList
  [("main.js", "import a from './a.js';\nimport logo from './logo.png';\nimport 'react';\n"),
    ("a.js", "export * from './main.js';\nexport default () => require('./logo.png');\n")]

end LivePreview.Linking
