import LivePreview.Linking.Graph
import LivePreview.Proofs.Linking.Replacements
import LivePreview.Proofs.Sources.Resolving

namespace LivePreview

namespace Sources

variable {files : Sources} {importer name path : String}

theorem mem_paths_iff : path ∈ files.paths ↔ files.contains path = true :=
  contains_iff_mem_paths.symm

theorem standIn_of_resolve {id source : String} (h : files.resolve importer name = .asset id source) :
    "asset:".toList <+: id.toList ∧ source = Asset.standInModule name := by
  unfold resolve at h
  dsimp only at h
  split at h
  · cases h
  · split at h
    · cases h
      rw [String.toList_append]
      exact ⟨List.prefix_append _ _, rfl⟩
    · split at h <;> cases h

end Sources

namespace Resolution

-- The module that has to be taken for a name: a file that is no style sheet.
def lead? : Resolution → Option String
  | .file path => if FileKind.ofPath? path = some .style then none else some path
  | _ => none

-- The style sheet that a name stands for.
def sheet? : Resolution → Option String
  | .file path => if FileKind.ofPath? path = some .style then some path else none
  | _ => none

end Resolution

namespace Linking

-- The text of a module that is read as a script: one that is there and whose structure is sound.
def readable? (files : Sources) (path : String) : Option (List Char) :=
  match files.get? path with
  | none => none
  | some content =>
    match FileKind.ofPath? path with
    | some .data => none
    | some .style => none
    | _ => if Script.structureIssue? content.toList = none then some content.toList else none

-- A module whose turn comes, and the number of imports bound by then.
structure Turn where
  path : String
  count : Nat
deriving DecidableEq, Repr

namespace Turn

variable (files : Sources) (turn : Turn)

-- The script of a module with its imports replaced.
def script? : Option Importing :=
  (readable? files turn.path).map (Importing.ofScript (registered? files turn.path) turn.count)

def mentions : List Mention := (turn.script? files).elim [] (·.mentions)

-- The number of imports bound when the turn is over.
def next : Nat := (turn.script? files).elim turn.count (·.count)

def targets : List Resolution := (turn.mentions files).map fun mention =>
  files.resolve turn.path mention.name

-- The modules that have to be taken because the module mentions them.
def leads : List String := (turn.targets files).filterMap Resolution.lead?

-- The style sheets that the module mentions.
def sheets : List String := (turn.targets files).filterMap Resolution.sheet?

-- What the module is in the registry.
def definition? : Option (String × List Char) :=
  match files.get? turn.path with
  | none => none
  | some content =>
    match FileKind.ofPath? turn.path with
    | some .data => (Json.parse content).toOption.map fun _ =>
      (turn.path, "module.exports = ".toList ++ Text.trim content.toList ++ [';'])
    | some .style => none
    | _ => (turn.script? files).map fun script => (turn.path, assignExports script.body)

end Turn

-- What a mention of a module has to say about exports that are not there.
def mentionFindings (files : Sources) (importer : String) (source : List Char)
    (mention : Mention) : List Finding :=
  match files.resolve importer mention.name with
  | .file path =>
    if FileKind.ofPath? path = some .script then
      Walk.missingExports files importer source path mention
    else []
  | _ => []

namespace Walk

-- The definitions of a walk with some more.
def defineAll (walk : Walk) (definitions : List (String × List Char)) : Walk :=
  { walk with definitions := walk.definitions ++ definitions }

-- A walk that comes to the mentions of a script: its own findings are there.
def openScript (files : Sources) (walk : Walk) (path : String) (source : List Char) : Walk :=
  match Script.structureIssue? source with
  | some issue => walk.report [.at (.broken issue.problem) path source issue.offset]
  | none =>
    { walk.report ((Script.undeclaredComponents source).map fun tag =>
        .at (.undeclared (String.ofList tag.1)) path source tag.2) with
      count := Turn.next files ⟨path, walk.count⟩ }

-- A walk that comes to the mentions of a module: what the module brings by itself is there, but its
-- definition is still to come.
def opened (files : Sources) (walk : Walk) (path : String) : Walk :=
  match files.get? path with
  | none => walk.report [⟨.missingFile path, path, none⟩]
  | some content =>
    let walk := { walk with modules := walk.modules ++ [path] }
    match FileKind.ofPath? path with
    | some .data =>
      match Json.parse content with
      | .ok _ => walk
      | .error e => walk.report [⟨.invalidData e, path, some ⟨e.line, e.column⟩⟩]
    | some .style => walk.style path content
    | _ => openScript files walk path content.toList

-- The text of a file, empty if there is none.
def sourceOf (files : Sources) (path : String) : List Char :=
  ((files.get? path).getD "").toList

section Fields

variable (walk : Walk) (path content : String)

@[simp] theorem findings_visit : (walk.visit path).findings = walk.findings := by
  unfold visit; split <;> rfl

@[simp] theorem modules_visit : (walk.visit path).modules = walk.modules := by
  unfold visit; split <;> rfl

@[simp] theorem definitions_visit : (walk.visit path).definitions = walk.definitions := by
  unfold visit; split <;> rfl

@[simp] theorem outside_visit : (walk.visit path).outside = walk.outside := by
  unfold visit; split <;> rfl

@[simp] theorem count_visit : (walk.visit path).count = walk.count := by
  unfold visit; split <;> rfl

@[simp] theorem waiting_style : (walk.style path content).waiting = walk.waiting := by
  unfold style; split <;> rfl

@[simp] theorem seen_style : (walk.style path content).seen = walk.seen := by
  unfold style; split <;> rfl

@[simp] theorem findings_style : (walk.style path content).findings = walk.findings := by
  unfold style; split <;> rfl

@[simp] theorem modules_style : (walk.style path content).modules = walk.modules := by
  unfold style; split <;> rfl

@[simp] theorem definitions_style : (walk.style path content).definitions = walk.definitions := by
  unfold style; split <;> rfl

@[simp] theorem outside_style : (walk.style path content).outside = walk.outside := by
  unfold style; split <;> rfl

@[simp] theorem count_style : (walk.style path content).count = walk.count := by
  unfold style; split <;> rfl

end Fields

section Take

variable {files : Sources} {walk : Walk} {path importer : String} {source : List Char}
  {mention : Mention}

@[simp] theorem defineAll_nil (walk : Walk) : walk.defineAll [] = walk := by
  simp [defineAll]

private theorem takeScript_eq (walk : Walk)
    (hread : readable? files path =
      if Script.structureIssue? source = none then some source else none) :
    takeScript files walk path source =
      ((Turn.mentions files ⟨path, walk.count⟩).foldl (follow files path source)
        (openScript files walk path source)).defineAll
          ((Turn.script? files ⟨path, walk.count⟩).map fun script =>
            (path, assignExports script.body)).toList := by
  unfold takeScript openScript Turn.mentions Turn.next Turn.script?
  rw [hread]
  cases Script.structureIssue? source with
  | some issue => simp
  | none => simp [define, defineAll]

-- A turn is over when the mentions of the module are followed and it is defined.
theorem take_eq (files : Sources) (walk : Walk) (path : String) :
    take files walk path =
      ((Turn.mentions files ⟨path, walk.count⟩).foldl (follow files path (sourceOf files path))
        (opened files walk path)).defineAll
          (Turn.definition? files ⟨path, walk.count⟩).toList := by
  unfold take opened Turn.definition? sourceOf
  cases hget : files.get? path with
  | none => simp [Turn.mentions, Turn.script?, readable?, hget]
  | some content =>
      dsimp only
      cases hkind : FileKind.ofPath? path with
      | none => exact takeScript_eq _ (by simp [readable?, hget, hkind])
      | some kind =>
          cases kind with
          | script => exact takeScript_eq _ (by simp [readable?, hget, hkind])
          | style => simp [Turn.mentions, Turn.script?, readable?, hget, hkind]
          | data =>
              have hmentions : Turn.mentions files ⟨path, walk.count⟩ = [] := by
                simp [Turn.mentions, Turn.script?, readable?, hget, hkind]
              rw [hmentions]
              unfold takeData
              cases Json.parse content <;> simp [define, defineAll, Except.toOption]

-- What following a mention does to a walk, by what the mention stands for.
theorem follow_cases (files : Sources) (importer : String) (source : List Char) (walk : Walk)
    (mention : Mention) :
    (∃ path content, files.resolve importer mention.name = .file path ∧
        FileKind.ofPath? path = some .style ∧
        follow files importer source walk mention =
          { walk.style path content with modules := walk.modules ++ [path] }) ∨
      (∃ path, files.resolve importer mention.name = .file path ∧
        FileKind.ofPath? path ≠ some .style ∧
        follow files importer source walk mention =
          (walk.report (mentionFindings files importer source mention)).visit path) ∨
      (∃ id body, files.resolve importer mention.name = .asset id body ∧
        follow files importer source walk mention =
          if walk.seen.contains id then walk
          else { walk with seen := walk.seen ++ [id] }.define id (assignExports body.toList)) ∨
      (∃ name, (files.resolve importer mention.name = .package name ∨
          files.resolve importer mention.name = .unknown name) ∧
        follow files importer source walk mention =
          { walk with
            outside := walk.outside.note importer (files.resolve importer mention.name) }) := by
  unfold follow mentionFindings
  cases htarget : files.resolve importer mention.name with
  | file path =>
      obtain ⟨content, hget⟩ := Sources.contains_iff.mp (Sources.contains_of_resolve htarget)
      cases hkind : FileKind.ofPath? path with
      | none =>
          exact .inr (.inl ⟨path, rfl, by simp [hkind], by simp [hkind, report, Outside.note]⟩)
      | some kind =>
          cases kind with
          | style => exact .inl ⟨path, content, rfl, hkind, by simp [hkind, hget, Outside.note]⟩
          | script => exact .inr (.inl ⟨path, rfl, by simp [hkind], by simp [hkind, Outside.note]⟩)
          | data =>
              exact .inr (.inl ⟨path, rfl, by simp [hkind], by simp [hkind, report, Outside.note]⟩)
  | asset id body => exact .inr (.inr (.inl ⟨id, body, rfl, rfl⟩))
  | package name => exact .inr (.inr (.inr ⟨name, .inl rfl, rfl⟩))
  | unknown name => exact .inr (.inr (.inr ⟨name, .inr rfl, rfl⟩))

-- A fold over mentions adds to a field what each mention adds.
theorem foldl_follow_field {α : Type} (field : Walk → List α) (added : Mention → List α)
    (h : ∀ walk mention, field (follow files importer source walk mention) =
      field walk ++ added mention) (walk : Walk) (mentions : List Mention) :
    field (mentions.foldl (follow files importer source) walk) =
      field walk ++ mentions.flatMap added := by
  induction mentions generalizing walk with
  | nil => simp
  | cons mention mentions ih =>
      rw [List.foldl_cons, ih, h, List.flatMap_cons, List.append_assoc]

-- What a fold over mentions brings to a field comes with one of them.
theorem mem_foldl_follow {α : Type} (field : Walk → List α) {brings : Mention → α → Prop}
    (h : ∀ walk mention added, added ∈ field (follow files importer source walk mention) →
      added ∈ field walk ∨ brings mention added)
    {added : α} {mentions : List Mention}
    (hmem : added ∈ field (mentions.foldl (follow files importer source) walk)) :
    added ∈ field walk ∨ ∃ mention ∈ mentions, brings mention added := by
  induction mentions generalizing walk with
  | nil => exact .inl hmem
  | cons mention mentions ih =>
      rcases ih hmem with hmem | ⟨other, hother, hbrings⟩
      · exact (h _ _ _ hmem).imp id fun hbrings => ⟨mention, List.mem_cons_self, hbrings⟩
      · exact .inr ⟨other, List.mem_cons_of_mem _ hother, hbrings⟩

theorem findings_follow (walk : Walk) (mention : Mention) :
    (follow files importer source walk mention).findings =
      walk.findings ++ mentionFindings files importer source mention := by
  have hnone : ∀ target, files.resolve importer mention.name = target →
      (∀ path, target = .file path → FileKind.ofPath? path = some .style) →
      mentionFindings files importer source mention = [] := by
    rintro target htarget hstyle
    unfold mentionFindings
    rw [htarget]
    cases target with
    | file path => simp [hstyle path rfl]
    | _ => rfl
  rcases follow_cases files importer source walk mention with
    ⟨path, content, htarget, hkind, heq⟩ | ⟨path, htarget, hkind, heq⟩ |
    ⟨id, body, htarget, heq⟩ | ⟨name, htarget | htarget, heq⟩
  · rw [heq, hnone _ htarget (by rintro _ ⟨⟩; exact hkind)]
    simp
  · rw [heq]
    simp [report]
  · rw [heq, hnone _ htarget (by rintro _ ⟨⟩)]
    split <;> simp [define]
  · rw [heq, hnone _ htarget (by rintro _ ⟨⟩)]
    simp
  · rw [heq, hnone _ htarget (by rintro _ ⟨⟩)]
    simp

theorem modules_follow (walk : Walk) (mention : Mention) :
    (follow files importer source walk mention).modules =
      walk.modules ++ (files.resolve importer mention.name).sheet?.toList := by
  rcases follow_cases files importer source walk mention with
    ⟨path, content, htarget, hkind, heq⟩ | ⟨path, htarget, hkind, heq⟩ |
    ⟨id, body, htarget, heq⟩ | ⟨name, htarget | htarget, heq⟩ <;>
    rw [heq, htarget]
  · simp [Resolution.sheet?, hkind]
  · simp [Resolution.sheet?, hkind, report]
  · split <;> simp [Resolution.sheet?, define]
  · simp [Resolution.sheet?]
  · simp [Resolution.sheet?]

theorem count_follow (walk : Walk) (mention : Mention) :
    (follow files importer source walk mention).count = walk.count := by
  rcases follow_cases files importer source walk mention with
    ⟨path, content, htarget, hkind, heq⟩ | ⟨path, htarget, hkind, heq⟩ |
    ⟨id, body, htarget, heq⟩ | ⟨name, htarget | htarget, heq⟩ <;>
    rw [heq]
  · simp
  · simp [report]
  · split <;> rfl

private theorem count_foldl_follow (walk : Walk) (mentions : List Mention) :
    (mentions.foldl (follow files importer source) walk).count = walk.count := by
  induction mentions generalizing walk with
  | nil => rfl
  | cons mention mentions ih => rw [List.foldl_cons, ih, count_follow]

private theorem outside_follow (walk : Walk) (mention : Mention) :
    (follow files importer source walk mention).outside =
      Outside.after files walk.outside [(importer, mention.name)] := by
  rcases follow_cases files importer source walk mention with
    ⟨path, content, htarget, hkind, heq⟩ | ⟨path, htarget, hkind, heq⟩ |
    ⟨id, body, htarget, heq⟩ | ⟨name, htarget | htarget, heq⟩ <;>
    simp only [heq, Outside.after, List.foldl_cons, List.foldl_nil, htarget]
  · exact outside_style ..
  · exact outside_visit ..
  · split <;> rfl

private theorem outside_foldl_follow (walk : Walk) (mentions : List Mention) :
    (mentions.foldl (follow files importer source) walk).outside =
      Outside.after files walk.outside (mentions.map fun mention => (importer, mention.name)) := by
  induction mentions generalizing walk with
  | nil => rfl
  | cons mention mentions ih =>
      rw [List.foldl_cons, ih, outside_follow, ← Outside.after_append]
      rfl

-- What a walk brings along is not touched by what a module brings by itself.
theorem opened_same (files : Sources) (walk : Walk) (path : String) :
    (opened files walk path).waiting = walk.waiting ∧ (opened files walk path).seen = walk.seen ∧
      (opened files walk path).definitions = walk.definitions ∧
      (opened files walk path).outside = walk.outside := by
  unfold opened openScript
  split
  · exact ⟨rfl, rfl, rfl, rfl⟩
  · dsimp only
    split
    · split <;> exact ⟨rfl, rfl, rfl, rfl⟩
    · simp
    · split <;> exact ⟨rfl, rfl, rfl, rfl⟩

private theorem count_opened (files : Sources) (walk : Walk) (path : String) :
    (opened files walk path).count = Turn.next files ⟨path, walk.count⟩ := by
  unfold opened openScript Turn.next Turn.script? readable?
  cases hget : files.get? path with
  | none => rfl
  | some content =>
      dsimp only
      split
      · split <;> rfl
      · simp
      · split <;> simp_all [report]

theorem count_take (files : Sources) (walk : Walk) (path : String) :
    (take files walk path).count = Turn.next files ⟨path, walk.count⟩ := by
  rw [take_eq]
  exact (count_foldl_follow _ _).trans (count_opened files walk path)

private theorem modules_opened (files : Sources) (walk : Walk) (path : String) :
    (opened files walk path).modules =
      walk.modules ++ if files.contains path then [path] else [] := by
  unfold opened openScript
  cases hget : files.get? path with
  | none => simp [report, Sources.contains, hget]
  | some content =>
      have hcontains : files.contains path = true := Sources.contains_iff.mpr ⟨content, hget⟩
      rw [if_pos hcontains]
      dsimp only
      split
      · split <;> rfl
      · simp
      · split <;> rfl

-- A turn brings the module, if it is there, and then the style sheets that it mentions.
theorem modules_take (files : Sources) (walk : Walk) (path : String) :
    (take files walk path).modules =
      walk.modules ++ (if files.contains path then [path] else []) ++
        Turn.sheets files ⟨path, walk.count⟩ := by
  rw [take_eq]
  refine (foldl_follow_field (·.modules) _ modules_follow _ _).trans ?_
  rw [modules_opened, Turn.sheets, Turn.targets, List.filterMap_map,
    List.filterMap_eq_flatMap_toList]
  simp only [Function.comp_apply]

-- A turn asks for the names that the module mentions, in their order, and for nothing else.
theorem outside_take (files : Sources) (walk : Walk) (path : String) :
    (take files walk path).outside = Outside.after files walk.outside
      ((Turn.mentions files ⟨path, walk.count⟩).map fun mention => (path, mention.name)) := by
  obtain ⟨_, _, _, hopened⟩ := opened_same files walk path
  rw [take_eq, ← hopened]
  exact outside_foldl_follow ..

end Take

end Walk

end Linking

end LivePreview
