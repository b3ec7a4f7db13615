import LivePreview.Proofs.Linking.Course

namespace LivePreview

theorem Outside.packages_subset_note (outside : Outside) (importer : String) (target : Resolution) :
    outside.packages.toList ⊆ (outside.note importer target).packages.toList := by
  cases target with
  | package name => exact fun _ hmem => NameSet.mem_insertName.mpr (.inr hmem)
  | _ => exact List.Subset.refl _

theorem Outside.warnings_subset_note (outside : Outside) (importer : String) (target : Resolution) :
    outside.warnings ⊆ (outside.note importer target).warnings := by
  cases target with
  | unknown name => exact List.subset_append_left _ _
  | _ => exact List.Subset.refl _

namespace Linking

-- What a later walk holds of an earlier one.
structure Walk.Grows (walk other : Walk) : Prop where
  seen : walk.seen ⊆ other.seen
  definitions : walk.definitions ⊆ other.definitions
  packages : walk.outside.packages.toList ⊆ other.outside.packages.toList
  warnings : walk.outside.warnings ⊆ other.outside.warnings

-- There is an answer to a request for a module: it will be defined, the page has it, or a warning
-- about the importer says that it is unknown.
def Answered (importer id : String) (walk : Walk) : Prop :=
  id ∈ walk.seen ∨ id ∈ walk.outside.packages.toList ∨
    Outside.unknownWarning importer id ∈ walk.outside.warnings

namespace Walk

variable {files : Sources} {walk other : Walk} {importer id : String} {source : List Char}
  {mention : Mention}

namespace Grows

theorem refl (walk : Walk) : walk.Grows walk := by
  constructor <;> exact List.Subset.refl _

theorem trans {third : Walk} (h : walk.Grows other) (h' : other.Grows third) : walk.Grows third :=
  ⟨List.Subset.trans h.seen h'.seen, List.Subset.trans h.definitions h'.definitions,
    List.Subset.trans h.packages h'.packages, List.Subset.trans h.warnings h'.warnings⟩

theorem answered (h : walk.Grows other) (ha : Answered importer id walk) :
    Answered importer id other :=
  ha.imp (h.seen ·) (Or.imp (h.packages ·) (h.warnings ·))

theorem of_eq (hseen : other.seen = walk.seen) (hdefinitions : other.definitions = walk.definitions)
    (houtside : other.outside = walk.outside) : walk.Grows other := by
  constructor <;> simp only [hseen, hdefinitions, houtside, List.Subset.refl]

theorem visit (walk : Walk) (path : String) : walk.Grows (walk.visit path) := by
  unfold Walk.visit
  split
  · exact refl walk
  · exact ⟨List.subset_append_left _ _, List.Subset.refl _, List.Subset.refl _, List.Subset.refl _⟩

theorem follow (files : Sources) (importer : String) (source : List Char) (walk : Walk)
    (mention : Mention) : walk.Grows (Walk.follow files importer source walk mention) := by
  rcases follow_cases files importer source walk mention with
    ⟨path, content, htarget, hkind, heq⟩ | ⟨path, htarget, hkind, heq⟩ |
    ⟨id, body, htarget, heq⟩ | ⟨name, htarget, heq⟩ <;>
    rw [heq]
  · exact of_eq (seen_style ..) (definitions_style ..) (outside_style ..)
  · have hreport : walk.Grows (walk.report (mentionFindings files importer source mention)) :=
      of_eq rfl rfl rfl
    exact hreport.trans (Grows.visit _ path)
  · split
    · exact refl walk
    · exact ⟨List.subset_append_left _ _, List.subset_append_left _ _, List.Subset.refl _,
        List.Subset.refl _⟩
  · exact ⟨List.Subset.refl _, List.Subset.refl _, Outside.packages_subset_note _ _ _,
      Outside.warnings_subset_note _ _ _⟩

theorem foldl_follow (walk : Walk) (mentions : List Mention) :
    walk.Grows (mentions.foldl (Walk.follow files importer source) walk) := by
  induction mentions generalizing walk with
  | nil => exact refl walk
  | cons mention mentions ih => exact (follow files importer source walk mention).trans (ih _)

theorem opened (files : Sources) (walk : Walk) (path : String) :
    walk.Grows (Walk.opened files walk path) := by
  obtain ⟨_, hseen, hdefinitions, houtside⟩ := opened_same files walk path
  exact of_eq hseen hdefinitions houtside

theorem defineAll (walk : Walk) (definitions : List (String × List Char)) :
    walk.Grows (walk.defineAll definitions) :=
  ⟨List.Subset.refl _, List.subset_append_left _ _, List.Subset.refl _, List.Subset.refl _⟩

theorem take (files : Sources) (walk : Walk) (path : String) :
    walk.Grows (Walk.take files walk path) := by
  rw [take_eq]
  exact (Grows.opened files walk path).trans ((foldl_follow _ _).trans (defineAll _ _))

end Grows

theorem mem_seen_visit (walk : Walk) (path : String) : path ∈ (walk.visit path).seen := by
  unfold visit
  split
  · rename_i hseen
    exact List.contains_iff_mem.mp hseen
  · exact List.mem_append_right _ List.mem_cons_self

theorem waiting_subset_visit (walk : Walk) (path : String) :
    walk.waiting ⊆ (walk.visit path).waiting := by
  unfold visit
  split
  · exact List.Subset.refl _
  · exact List.subset_append_left _ _

theorem waiting_subset_follow (walk : Walk) (mention : Mention) :
    walk.waiting ⊆ (follow files importer source walk mention).waiting := by
  rcases follow_cases files importer source walk mention with
    ⟨path, content, htarget, hkind, heq⟩ | ⟨path, htarget, hkind, heq⟩ |
    ⟨id, body, htarget, heq⟩ | ⟨name, htarget, heq⟩ <;>
    rw [heq]
  · exact (waiting_style walk path content).symm ▸ List.Subset.refl _
  · exact waiting_subset_visit (walk.report _) path
  · split <;> exact List.Subset.refl _
  · exact List.Subset.refl _

theorem waiting_subset_foldl_follow (walk : Walk) (mentions : List Mention) :
    walk.waiting ⊆ (mentions.foldl (follow files importer source) walk).waiting := by
  induction mentions generalizing walk with
  | nil => exact List.Subset.refl _
  | cons mention mentions ih => exact List.Subset.trans (waiting_subset_follow walk mention) (ih _)

theorem waiting_subset_take (files : Sources) (walk : Walk) (path : String) :
    walk.waiting ⊆ (take files walk path).waiting := by
  rw [take_eq, ← (opened_same files walk path).1]
  exact waiting_subset_foldl_follow _ _

-- A module that was not seen before waits once it is mentioned.
theorem mem_waiting_follow_of_notMem {path : String}
    (htarget : files.resolve importer mention.name = .file path)
    (hkind : FileKind.ofPath? path ≠ some .style) (hnew : path ∉ walk.seen) :
    path ∈ (follow files importer source walk mention).waiting := by
  rcases follow_cases files importer source walk mention with
    ⟨other, content, hother, hstyle, heq⟩ | ⟨other, hother, _, heq⟩ |
    ⟨id, body, hother, heq⟩ | ⟨name, hother | hother, heq⟩ <;>
    rw [htarget] at hother <;> cases hother
  · exact absurd hstyle hkind
  · have hseen : ¬(walk.report (mentionFindings files importer source mention)).seen.contains path =
        true := by rwa [List.contains_iff_mem]
    rw [heq, visit, if_neg hseen]
    exact List.mem_append_right _ List.mem_cons_self

theorem mem_waiting_take_of_notMem {path : String} {mentions : List Mention}
    (hmentions : Turn.mentions files ⟨importer, walk.count⟩ = mention :: mentions)
    (htarget : files.resolve importer mention.name = .file path)
    (hkind : FileKind.ofPath? path ≠ some .style) (hnew : path ∉ walk.seen) :
    path ∈ (take files walk importer).waiting := by
  rw [take_eq, hmentions]
  refine waiting_subset_foldl_follow _ mentions (mem_waiting_follow_of_notMem htarget hkind ?_)
  rwa [(opened_same files walk importer).2.1]

-- A mention that is followed is answered.
theorem answered_follow (hid : registered? files importer mention.name = some id) :
    Answered importer id (follow files importer source walk mention) := by
  unfold registered? at hid
  rcases follow_cases files importer source walk mention with
    ⟨path, content, htarget, hkind, heq⟩ | ⟨path, htarget, hkind, heq⟩ |
    ⟨asset, body, htarget, heq⟩ | ⟨name, htarget | htarget, heq⟩ <;>
    rw [htarget] at hid <;> rw [heq]
  · simp [hkind] at hid
  · simp only [hkind, if_false, Option.some.injEq] at hid
    exact .inl (hid ▸ mem_seen_visit _ _)
  · cases hid
    split
    · rename_i hseen
      exact .inl (List.contains_iff_mem.mp hseen)
    · exact .inl (List.mem_append_right _ List.mem_cons_self)
  · cases hid
    rw [htarget]
    exact .inr (.inl (NameSet.mem_insertName.mpr (.inl rfl)))
  · cases hid
    rw [htarget]
    exact .inr (.inr (List.mem_append_right _ List.mem_cons_self))

theorem answered_foldl_follow {mentions : List Mention} (hmem : mention ∈ mentions)
    (hid : registered? files importer mention.name = some id) :
    Answered importer id (mentions.foldl (follow files importer source) walk) := by
  induction mentions generalizing walk with
  | nil => cases hmem
  | cons first mentions ih =>
      rcases List.mem_cons.mp hmem with rfl | hmem
      · exact (Grows.foldl_follow _ mentions).answered (answered_follow hid)
      · exact ih hmem

end Walk

namespace Course

variable {files : Sources} {entry : String} {turns : List Turn} {walk : Walk}

theorem entry_mem_seen (h : Course files entry turns walk) : entry ∈ walk.seen := by
  induction h with
  | start => exact List.mem_cons_self
  | @take turns walk path waiting course hwaiting ih =>
      exact (Walk.Grows.take files { walk with waiting := waiting } path).seen ih

-- Once a module has had its turn, all that it mentions is answered.
theorem answered (h : Course files entry turns walk) {turn : Turn} (hturn : turn ∈ turns)
    {mention : Mention} (hmention : mention ∈ turn.mentions files) {id : String}
    (hid : registered? files turn.path mention.name = some id) : Answered turn.path id walk := by
  induction h with
  | start => cases hturn
  | @take turns walk path waiting course hwaiting ih =>
      rcases List.mem_append.mp hturn with hold | hlast
      · exact (Walk.Grows.take files { walk with waiting := waiting } path).answered (ih hold)
      · rw [List.mem_singleton] at hlast
        subst hlast
        rw [Walk.take_eq]
        exact (Walk.Grows.defineAll _ _).answered (Walk.answered_foldl_follow hmention hid)

-- The entry has the first turn, and what it puts in line has its turn or waits.
theorem first (h : Course files entry turns walk) :
    (turns = [] ∧ walk = .start entry) ∨ ∃ later, turns = ⟨entry, 0⟩ :: later ∧
      ∀ path ∈ (Walk.take files { Walk.start entry with waiting := [] } entry).waiting,
        path ∈ later.map (·.path) ∨ path ∈ walk.waiting := by
  induction h with
  | start => exact .inl ⟨rfl, rfl⟩
  | @take turns walk path waiting course hwaiting ih =>
      right
      rcases ih with ⟨rfl, rfl⟩ | ⟨later, rfl, hlater⟩
      · obtain ⟨rfl, rfl⟩ := List.cons.inj hwaiting
        exact ⟨[], rfl, fun other hother => .inr hother⟩
      · refine ⟨later ++ [⟨path, walk.count⟩], rfl, fun other hother => ?_⟩
        rcases hlater other hother with hold | hold
        · exact .inl (List.map_append ▸ List.mem_append_left _ hold)
        · rw [hwaiting] at hold
          rcases List.mem_cons.mp hold with rfl | hold
          · exact .inl (by simp)
          · exact .inr (Walk.waiting_subset_take files { walk with waiting := waiting } path hold)

end Course

end Linking

end LivePreview
