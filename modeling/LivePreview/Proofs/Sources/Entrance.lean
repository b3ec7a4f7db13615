import LivePreview.EntryPoint
import LivePreview.Proofs.Sources.Spelling
import LivePreview.Proofs.Text.ByteOrder

namespace LivePreview

-- What a search yields stands in front of all else that it would yield.
theorem exists_first_of_findSome? {α β : Type} [DecidableEq α] {list : List α} {f : α → Option β}
    {found : β} (h : list.findSome? f = some found) :
    ∃ a ∈ list, f a = some found ∧
      ∀ b, b ≠ a → (f b).isSome = true → list.idxOf a < list.idxOf b := by
  obtain ⟨front, a, back, rfl, ha, hfront⟩ := List.findSome?_eq_some_iff.mp h
  have hnotMem : ∀ b, (f b).isSome = true → b ∉ front := fun b hb hmem => by
    rw [hfront b hmem] at hb
    cases hb
  refine ⟨a, List.mem_append_right _ List.mem_cons_self, ha, fun b hne hb => ?_⟩
  rw [List.idxOf_append_of_notMem (hnotMem a (by rw [ha]; rfl)),
    List.idxOf_append_of_notMem (hnotMem b hb), List.idxOf_cons_self, List.idxOf_cons_ne _ hne.symm]
  omega

theorem FileKind.ofExtension?_eq_script_iff {extension : String} :
    ofExtension? extension = some .script ↔ extension ∈ EntryPoint.scriptExtensions := by
  have hsame : ["tsx", "ts", "jsx", "js", "mjs", "cjs"].Perm EntryPoint.scriptExtensions := by
    decide
  rw [← hsame.mem_iff, ← List.contains_iff_mem, ofExtension?]
  split
  · rename_i hmem
    exact iff_of_true rfl hmem
  · rename_i hnotMem
    refine iff_of_false ?_ hnotMem
    split
    · exact nofun
    · split <;> exact nofun

-- Scripts are told by the extensions that are tried for an entry.
theorem FileKind.ofPath?_eq_script_iff {path : String} :
    ofPath? path = some .script ↔
      ∃ extension ∈ EntryPoint.scriptExtensions, Path.extension? path = some extension := by
  rw [ofPath?, Option.bind_eq_some_iff]
  constructor
  · rintro ⟨extension, hextension, hkind⟩
    exact ⟨extension, ofExtension?_eq_script_iff.mp hkind, hextension⟩
  · rintro ⟨extension, hmem, hextension⟩
    exact ⟨extension, hextension, ofExtension?_eq_script_iff.mpr hmem⟩

namespace EntryPoint

-- The file can be an entry: a script with content that can be source of one.
structure Usable (files : Sources) (path content : String) : Prop where
  held : files.get? path = some content
  kind : FileKind.ofPath? path = some .script
  source : FileKind.script.mayHold content = true

-- What a file may be as an entry, with its place among those of its sort.
inductive Standing where
  | bootstrap (place : Nat)
  | component (place : Nat)
  | script (place : Nat) (path : String)

-- The order of preference.
def Standing.Precedes : Standing → Standing → Prop
  | bootstrap place, bootstrap other => place < other
  | bootstrap _, _ => True
  | component place, component other => place < other
  | component _, script _ _ => True
  | script place path, script other otherPath =>
    place < other ∨ place = other ∧ Text.bytes path < Text.bytes otherPath
  | _, _ => False

theorem Standing.Precedes.asymm {first second : Standing} (h : first.Precedes second) :
    ¬ second.Precedes first := by
  cases first with
  | bootstrap place =>
      cases second with
      | bootstrap other => exact Nat.lt_asymm h
      | component _ | script _ _ => exact id
  | component place =>
      cases second with
      | bootstrap _ => exact absurd h id
      | component other => exact Nat.lt_asymm h
      | script _ _ => exact id
  | script place path =>
      cases second with
      | bootstrap _ | component _ => exact absurd h id
      | script other otherPath =>
          rintro (hback | ⟨hplace, hback⟩)
          · rcases h with h | ⟨hplace, _⟩ <;> omega
          · rcases h with h | ⟨_, h⟩
            · omega
            · exact List.lt_asymm h hback

-- A bootstrap file counts as one only if it attaches itself to the page.
def standing (path content : String) : Standing :=
  if path ∈ bootstrapPaths ∧ mountsPage content = true then
    .bootstrap (bootstrapPaths.idxOf path)
  else if path ∈ rootComponentPaths then .component (rootComponentPaths.idxOf path)
  else .script (scriptExtensions.idxOf ((Path.extension? path).getD "")) path

-- A file attaches itself to the page as its standing tells, otherwise as its content does.
def mountsAs (path content : String) : Bool :=
  match standing path content with
  | .bootstrap _ => true
  | .component _ => false
  | .script _ _ => mountsPage content

theorem standing_of_bootstrap {path content : String} (hpath : path ∈ bootstrapPaths)
    (hmounts : mountsPage content = true) :
    standing path content = .bootstrap (bootstrapPaths.idxOf path) :=
  if_pos ⟨hpath, hmounts⟩

theorem eq_of_standing_eq_bootstrap {path content : String} {place : Nat}
    (h : standing path content = .bootstrap place) :
    path ∈ bootstrapPaths ∧ bootstrapPaths.idxOf path = place := by
  unfold standing at h
  split at h
  · rename_i hbootstrap
    exact ⟨hbootstrap.1, Standing.bootstrap.inj h⟩
  · split at h <;> cases h

-- The entry is a file that can be one and comes before all others that can.
def IsLeast (files : Sources) (entry : EntryPoint) : Prop :=
  ∃ content, Usable files entry.path content ∧
    entry.mountsItself = mountsAs entry.path content ∧
    ∀ other held, Usable files other held → other ≠ entry.path →
      (standing entry.path content).Precedes (standing other held)

variable {files : Sources} {entry : EntryPoint} {path content extension : String}

theorem isUsable_iff : isUsable path content = true ↔
    FileKind.ofPath? path = some .script ∧ FileKind.script.mayHold content = true := by
  rw [isUsable, Bool.and_eq_true, beq_iff_eq]

theorem at?_eq_some_iff {test : String → Bool} :
    at? files test path = some entry ↔ ∃ content, Usable files path content ∧
      test content = true ∧ entry = ⟨path, mountsPage content⟩ := by
  rw [at?, Option.bind_eq_some_iff]
  refine exists_congr fun content => ?_
  simp only [Option.ite_none_right_eq_some, Bool.and_eq_true, isUsable_iff, Option.some.injEq]
  exact ⟨fun ⟨hheld, ⟨⟨hkind, hsource⟩, htest⟩, heq⟩ => ⟨⟨hheld, hkind, hsource⟩, htest, heq.symm⟩,
    fun ⟨husable, htest, heq⟩ =>
      ⟨husable.held, ⟨⟨husable.kind, husable.source⟩, htest⟩, heq.symm⟩⟩

theorem isSome_at? {test : String → Bool} (husable : Usable files path content)
    (htest : test content = true) : (at? files test path).isSome = true :=
  Option.isSome_iff_exists.mpr ⟨_, at?_eq_some_iff.mpr ⟨content, husable, htest, rfl⟩⟩

-- The files are searched in the order of their paths.
theorem spec_withExtension? (h : withExtension? files extension = some entry) :
    ∃ content, Usable files entry.path content ∧ Path.extension? entry.path = some extension ∧
      entry.mountsItself = mountsPage content ∧
      ∀ other held, Usable files other held → Path.extension? other = some extension →
        other ≠ entry.path → Text.bytes entry.path < Text.bytes other := by
  obtain ⟨⟨path, content⟩, hfind, rfl⟩ := Option.map_eq_some_iff.mp h
  obtain ⟨hfound, front, back, hlist, hfront⟩ := List.find?_eq_some_iff_append.mp hfind
  simp only [Bool.and_eq_true, beq_iff_eq, isUsable_iff] at hfound
  have hheld := Sources.get?_eq_some_iff.mpr (List.mem_of_find?_eq_some hfind)
  refine ⟨content, ⟨hheld, hfound.2.1, hfound.2.2⟩, hfound.1, rfl,
    fun other held husable hextension hne => ?_⟩
  have hascending := files.ascending
  have hmem := Sources.get?_eq_some_iff.mp husable.held
  rw [hlist] at hascending hmem
  rcases List.mem_append.mp hmem with hmem | hmem
  · have hpassed := hfront _ hmem
    simp [hextension, isUsable, husable.kind, husable.source] at hpassed
  · rcases List.mem_cons.mp hmem with heq | hmem
    · exact absurd (congrArg Prod.fst heq) hne
    · rw [Text.bytes_lt_bytes_iff]
      exact (List.pairwise_cons.mp (List.pairwise_append.mp hascending).2.1).1 _ hmem

theorem isSome_withExtension? (husable : Usable files path content)
    (hextension : Path.extension? path = some extension) :
    (withExtension? files extension).isSome = true := by
  rw [withExtension?, Option.isSome_map, List.find?_isSome]
  refine ⟨(path, content), Sources.get?_eq_some_iff.mp husable.held, ?_⟩
  simp [hextension, isUsable, husable.kind, husable.source]

-- A bootstrap file that is found comes before all that can be an entry.
theorem isLeast_of_bootstrap (h : bootstrapPaths.findSome? (at? files mountsPage) = some entry) :
    IsLeast files entry := by
  obtain ⟨path, hpath, hat, hfirst⟩ := exists_first_of_findSome? h
  obtain ⟨content, husable, hmounts, rfl⟩ := at?_eq_some_iff.mp hat
  have hstanding := standing_of_bootstrap hpath hmounts
  refine ⟨content, husable, ?_, fun other held hother hne => ?_⟩
  · rw [mountsAs, hstanding]
    exact hmounts
  · rw [hstanding, standing]
    split
    · rename_i hbootstrap
      exact hfirst other hne (isSome_at? hother hbootstrap.2)
    · split <;> exact trivial

-- Where no bootstrap file is found, no file stands as one.
theorem not_bootstrap_of_findSome?_eq_none
    (h : bootstrapPaths.findSome? (at? files mountsPage) = none)
    (husable : Usable files path content) :
    ¬ (path ∈ bootstrapPaths ∧ mountsPage content = true) := by
  rintro ⟨hpath, hmounts⟩
  have hat := isSome_at? husable hmounts
  rw [List.findSome?_eq_none_iff.mp h path hpath] at hat
  cases hat

theorem isLeast_of_component (hnone : bootstrapPaths.findSome? (at? files mountsPage) = none)
    (h : rootComponentPaths.findSome? (at? files fun _ => true) = some entry) :
    IsLeast files { entry with mountsItself := false } := by
  obtain ⟨path, hpath, hat, hfirst⟩ := exists_first_of_findSome? h
  obtain ⟨content, husable, _, rfl⟩ := at?_eq_some_iff.mp hat
  have hstanding : standing path content = .component (rootComponentPaths.idxOf path) := by
    rw [standing, if_neg (not_bootstrap_of_findSome?_eq_none hnone husable), if_pos hpath]
  refine ⟨content, husable, ?_, fun other held hother hne => ?_⟩
  · rw [mountsAs, hstanding]
  · rw [hstanding, standing, if_neg (not_bootstrap_of_findSome?_eq_none hnone hother)]
    split
    · exact hfirst other hne (isSome_at? hother rfl)
    · exact trivial

theorem isLeast_of_script (hnone : bootstrapPaths.findSome? (at? files mountsPage) = none)
    (hnoComponent : rootComponentPaths.findSome? (at? files fun _ => true) = none)
    (h : scriptExtensions.findSome? (withExtension? files) = some entry) : IsLeast files entry := by
  obtain ⟨extension, hmem, hwith, hfirst⟩ := exists_first_of_findSome? h
  obtain ⟨content, husable, hextension, hmounts, hleast⟩ := spec_withExtension? hwith
  have hnotComponent : ∀ {path content}, Usable files path content → path ∉ rootComponentPaths := by
    intro path content husable hpath
    have hat : (at? files (fun _ => true) path).isSome = true := isSome_at? husable rfl
    rw [List.findSome?_eq_none_iff.mp hnoComponent path hpath] at hat
    cases hat
  have hstanding : ∀ {path content extension}, Usable files path content →
      Path.extension? path = some extension →
        standing path content = .script (scriptExtensions.idxOf extension) path := by
    intro path content extension husable hextension
    rw [standing, if_neg (not_bootstrap_of_findSome?_eq_none hnone husable),
      if_neg (hnotComponent husable), hextension]
    rfl
  refine ⟨content, husable, ?_, fun other held hother hne => ?_⟩
  · rw [mountsAs, hstanding husable hextension, hmounts]
  · obtain ⟨otherExtension, _, hotherExtension⟩ := FileKind.ofPath?_eq_script_iff.mp hother.kind
    rw [hstanding husable hextension, hstanding hother hotherExtension]
    by_cases hsame : otherExtension = extension
    · subst hsame
      exact .inr ⟨rfl, hleast other held hother hotherExtension hne⟩
    · exact .inl (hfirst otherExtension hsame (isSome_withExtension? hother hotherExtension))

-- The three searches follow the order of preference.
theorem isLeast_of_detect? (h : detect? files = some entry) : IsLeast files entry := by
  unfold detect? at h
  dsimp only at h
  rcases Option.or_eq_some_iff.mp h with h | ⟨hnone, h⟩
  · exact isLeast_of_bootstrap h
  · rcases Option.or_eq_some_iff.mp h with h | ⟨hnoComponent, h⟩
    · obtain ⟨component, hcomponent, rfl⟩ := Option.map_eq_some_iff.mp h
      exact isLeast_of_component hnone hcomponent
    · exact isLeast_of_script hnone (Option.map_eq_none_iff.mp hnoComponent) h

theorem exists_detect?_of_usable (husable : Usable files path content) :
    ∃ entry, detect? files = some entry := by
  obtain ⟨extension, hmem, hextension⟩ := FileKind.ofPath?_eq_script_iff.mp husable.kind
  have hsome : (scriptExtensions.findSome? (withExtension? files)).isSome = true :=
    List.findSome?_isSome_iff.mpr ⟨extension, hmem, isSome_withExtension? husable hextension⟩
  refine Option.isSome_iff_exists.mp ?_
  unfold detect?
  dsimp only
  rw [Option.isSome_or, Option.isSome_or, hsome, Bool.or_true, Bool.or_true]

theorem IsLeast.unique {other : EntryPoint} (h : IsLeast files entry) (h' : IsLeast files other) :
    entry = other := by
  obtain ⟨content, husable, hmounts, hleast⟩ := h
  obtain ⟨held, hother, hotherMounts, hotherLeast⟩ := h'
  have hpath : entry.path = other.path := by
    by_contra hne
    exact (hleast _ _ hother (Ne.symm hne)).asymm (hotherLeast _ _ husable hne)
  have hcontent : content = held :=
    Option.some.inj (husable.held.symm.trans (hpath ▸ hother.held))
  obtain ⟨path, mounts⟩ := entry
  obtain ⟨otherPath, otherMounts⟩ := other
  dsimp only at hpath hmounts hotherMounts
  rw [hmounts, hotherMounts, hpath, hcontent]

theorem detect?_eq_some_iff : detect? files = some entry ↔ IsLeast files entry := by
  refine ⟨isLeast_of_detect?, fun ⟨content, husable, hleast⟩ => ?_⟩
  obtain ⟨other, hother⟩ := exists_detect?_of_usable husable
  rw [hother, (isLeast_of_detect? hother).unique ⟨content, husable, hleast⟩]

theorem detect?_eq_none_iff :
    detect? files = none ↔ ∀ path content, ¬ Usable files path content := by
  rw [Option.eq_none_iff_forall_ne_some]
  constructor
  · intro hnone path content husable
    obtain ⟨entry, hentry⟩ := exists_detect?_of_usable husable
    exact hnone entry hentry
  · intro hunusable entry hentry
    obtain ⟨content, husable, _⟩ := isLeast_of_detect? hentry
    exact hunusable _ _ husable

-- Where a bootstrap file attaches itself to the page, the entry is one that stands no further back.
theorem exists_bootstrap_of_usable (husable : Usable files path content)
    (hpath : path ∈ bootstrapPaths) (hmounts : mountsPage content = true) :
    ∃ first ∈ bootstrapPaths, detect? files = some ⟨first, true⟩ ∧
      bootstrapPaths.idxOf first ≤ bootstrapPaths.idxOf path := by
  obtain ⟨⟨first, mounts⟩, hentry⟩ := exists_detect?_of_usable husable
  obtain ⟨held, hfirst, hfirstMounts, hleast⟩ := isLeast_of_detect? hentry
  have hstanding := standing_of_bootstrap hpath hmounts
  have hbefore : ∃ place ≤ bootstrapPaths.idxOf path, standing first held = .bootstrap place := by
    by_cases hsame : path = first
    · have hcontent : content = held :=
        Option.some.inj (husable.held.symm.trans (hsame ▸ hfirst.held))
      exact ⟨_, le_rfl, by rw [← hsame, ← hcontent, hstanding]⟩
    · have hprecedes := hleast path content husable hsame
      dsimp only at hprecedes
      rw [hstanding] at hprecedes
      cases hfirstStanding : standing first held with
      | bootstrap place =>
          rw [hfirstStanding] at hprecedes
          exact ⟨place, Nat.le_of_lt hprecedes, rfl⟩
      | component _ | script _ _ =>
          rw [hfirstStanding] at hprecedes
          cases hprecedes
  obtain ⟨place, hle, hfirstStanding⟩ := hbefore
  obtain ⟨hmem, rfl⟩ := eq_of_standing_eq_bootstrap hfirstStanding
  have hself : mounts = true := hfirstMounts.trans (by rw [mountsAs, hfirstStanding])
  exact ⟨first, hmem, hself ▸ hentry, hle⟩

-- There is an entry if some script can be one, and then it is the least of these in the order of
-- preference; a bootstrap file that attaches itself to the page wins over all that is none.
theorem detect?_least (files : Sources) :
    (detect? files = none ↔ ∀ path content, ¬ Usable files path content) ∧
    (∀ entry, detect? files = some entry ↔ IsLeast files entry) ∧
    (∀ path content, Usable files path content → path ∈ bootstrapPaths →
      mountsPage content = true → ∃ first ∈ bootstrapPaths, detect? files = some ⟨first, true⟩ ∧
        bootstrapPaths.idxOf first ≤ bootstrapPaths.idxOf path) :=
  ⟨detect?_eq_none_iff, fun _ => detect?_eq_some_iff, fun _ _ => exists_bootstrap_of_usable⟩

-- The first bootstrap file does not attach itself to the page, the second one does.
def lateBootstrap : Sources :=
  .ofList [("App.tsx", "<X/>"), ("a.TSX", "r.mount(1)"), ("index.js", "r.mount(1)"),
    ("main.tsx", "<X/>")]

theorem detect?_least_lateBootstrap :
    Usable lateBootstrap "index.js" "r.mount(1)" ∧ "index.js" ∈ bootstrapPaths ∧
      mountsPage "r.mount(1)" = true ∧
      (∃ first ∈ bootstrapPaths, detect? lateBootstrap = some ⟨first, true⟩ ∧
        bootstrapPaths.idxOf first ≤ bootstrapPaths.idxOf "index.js") ∧
      IsLeast lateBootstrap ⟨"index.js", true⟩ := by
  obtain ⟨_, hleast, hbootstrap⟩ := detect?_least lateBootstrap
  have husable : Usable lateBootstrap "index.js" "r.mount(1)" := by
    constructor <;> decide +kernel
  have hpath : "index.js" ∈ bootstrapPaths := by decide
  have hmounts : mountsPage "r.mount(1)" = true := by decide
  exact ⟨husable, hpath, hmounts, hbootstrap _ _ husable hpath hmounts,
    (hleast ⟨"index.js", true⟩).mp (by decide +kernel)⟩

end EntryPoint

end LivePreview
