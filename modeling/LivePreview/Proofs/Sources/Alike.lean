import LivePreview.Proofs.Sources.Planning
import Mathlib.Data.List.Forall2

namespace LivePreview

namespace Sources

-- The files stand at the same paths in both maps, and the two contents at a path are related.
def Alike (Related : String → String → String → Prop) (first second : Sources) : Prop :=
  List.Forall₂ (fun file other => file.1 = other.1 ∧ Related file.1 file.2 other.2)
    first.toList second.toList

-- The contents play the same part in the choice of what is built.
structure SamePart (path first second : String) : Prop where
  holds : ∀ kind, FileKind.ofPath? path = some kind → kind.mayHold first = kind.mayHold second
  mounts : EntryPoint.mountsPage first = EntryPoint.mountsPage second

theorem SamePart.refl (path content : String) : SamePart path content content :=
  ⟨fun _ _ => rfl, rfl⟩

theorem SamePart.isUsable_eq {path first second : String} (h : SamePart path first second) :
    EntryPoint.isUsable path second = EntryPoint.isUsable path first := by
  unfold EntryPoint.isUsable
  by_cases hkind : FileKind.ofPath? path = some .script
  · rw [h.holds .script hkind]
  · rw [beq_eq_false_iff_ne.mpr hkind, Bool.false_and, Bool.false_and]

theorem insert_of_get? {files : Sources} {path content : String}
    (h : files.get? path = some content) : files.insert path content = files := by
  obtain ⟨list, hascending⟩ := files
  refine ext ?_
  show insertEntry path content list = list
  replace h : list.lookup path = some content := h
  induction list with
  | nil => cases h
  | cons head rest ih =>
      obtain ⟨hhead, htail⟩ := List.pairwise_cons.mp hascending
      rw [lookup_cons] at h
      rw [insertEntry]
      split at h
      · rename_i heq
        rw [if_neg (heq ▸ String.lt_irrefl _), if_pos heq, heq, ← Option.some.inj h]
      · rename_i hne
        have hget : (⟨rest, htail⟩ : Sources).get? path = some content := h
        have hlater : head.1 < path := hhead _ (get?_eq_some_iff.mp hget)
        rw [if_neg (String.lt_asymm hlater), if_neg hne, ih htail h]

namespace Alike

variable {Related : String → String → String → Prop} {first second : Sources}

theorem refl (hrefl : ∀ path content, Related path content content) (files : Sources) :
    Alike Related files files :=
  List.forall₂_same.mpr fun file _ => ⟨rfl, hrefl file.1 file.2⟩

theorem paths_eq (h : Alike Related first second) : second.paths = first.paths := by
  unfold Alike at h
  unfold paths
  generalize first.toList = files at h
  generalize second.toList = others at h
  induction h with
  | nil => rfl
  | cons hfile _ ih => rw [List.map_cons, List.map_cons, ih, hfile.1]

theorem toList_eq_nil_iff (h : Alike Related first second) :
    second.toList = [] ↔ first.toList = [] := by
  rw [← List.length_eq_zero_iff, ← List.length_eq_zero_iff, List.Forall₂.length_eq h]

theorem size_eq (h : Alike Related first second) : second.size = first.size :=
  (List.Forall₂.length_eq h).symm

theorem rel_get? (h : Alike Related first second) (path : String) :
    Option.Rel (Related path) (first.get? path) (second.get? path) := by
  unfold Alike at h
  unfold get?
  generalize first.toList = files at h
  generalize second.toList = others at h
  induction h with
  | nil => exact .none
  | @cons file other files others hfile _ ih =>
      obtain ⟨hpath, hrelated⟩ := hfile
      rw [lookup_cons, lookup_cons, ← hpath]
      split
      · rename_i heq
        exact .some (heq ▸ hrelated)
      · exact ih

theorem exists_get? (h : Alike Related first second) {path content : String}
    (hget : first.get? path = some content) :
    ∃ other, second.get? path = some other ∧ Related path content other := by
  have hrel := h.rel_get? path
  rw [hget] at hrel
  generalize second.get? path = found at hrel
  cases hrel with
  | some hrelated => exact ⟨_, rfl, hrelated⟩

theorem exists_get?_first (h : Alike Related first second) {path other : String}
    (hget : second.get? path = some other) :
    ∃ content, first.get? path = some content ∧ Related path content other := by
  have hrel := h.rel_get? path
  rw [hget] at hrel
  generalize first.get? path = found at hrel
  cases hrel with
  | some hrelated => exact ⟨_, rfl, hrelated⟩

theorem contains_eq (h : Alike Related first second) : second.contains = first.contains := by
  funext path
  rw [contains, contains, Bool.eq_iff_iff, Option.isSome_iff_exists, Option.isSome_iff_exists]
  constructor
  · rintro ⟨_, hother⟩
    exact (h.exists_get?_first hother).imp fun _ hc => hc.1
  · rintro ⟨_, hcontent⟩
    exact (h.exists_get? hcontent).imp fun _ hc => hc.1

theorem resolve_eq (h : Alike Related first second) : second.resolve = first.resolve := by
  have hlocate : second.locate? = first.locate? := by
    unfold locate?
    rw [h.contains_eq]
  unfold resolve
  rw [hlocate]

theorem freePath_eq (h : Alike Related first second) (path : String) :
    second.freePath path = first.freePath path := by
  unfold freePath
  rw [h.contains_eq, h.size_eq]

-- Related contents at one path keep the maps alike.
theorem insert (h : Alike Related first second) {path content other : String}
    (hrelated : Related path content other) :
    Alike Related (first.insert path content) (second.insert path other) := by
  unfold Alike at h ⊢
  show List.Forall₂ _ (insertEntry path content first.toList) (insertEntry path other second.toList)
  generalize first.toList = files at h
  generalize second.toList = others at h
  induction h with
  | nil => exact .cons ⟨rfl, hrelated⟩ .nil
  | cons hfile hfiles ih =>
      rw [insertEntry, insertEntry, ← hfile.1]
      split
      · exact .cons ⟨rfl, hrelated⟩ (.cons hfile hfiles)
      · split
        · exact .cons ⟨rfl, hrelated⟩ hfiles
        · exact .cons hfile ih

-- New content at a path keeps the maps alike if it is related to the content in the first one.
theorem insert_second (h : Alike Related first second) {path content other : String}
    (hget : first.get? path = some content) (hrelated : Related path content other) :
    Alike Related first (second.insert path other) := by
  have hinsert := h.insert hrelated
  rwa [insert_of_get? hget] at hinsert

private theorem admit?_eq {file other : String × String} (hpath : file.1 = other.1)
    (hpart : SamePart (Path.normalize file.1) file.2 other.2) (skip : Bool) :
    Prepared.admit? skip other = Prepared.admit? skip file := by
  unfold Prepared.admit?
  dsimp only
  rw [← hpath]
  split
  · cases hkind : FileKind.ofPath? (Path.normalize file.1) with
    | none => rfl
    | some kind => rw [Option.map_some, Option.map_some, hpart.holds kind hkind]
  · rfl

-- What is made ready for a bundle goes by the paths and by what the contents can be.
theorem prepare (h : Alike (fun path => Related (Path.normalize path)) first second)
    (hpart : ∀ path content other, Related path content other → SamePart path content other)
    (skip : Bool) :
    Alike Related (first.prepare skip).files (second.prepare skip).files ∧
      (second.prepare skip).skipped = (first.prepare skip).skipped := by
  have hrun : ∀ start begun : Prepared, Alike Related start.files begun.files ∧
      begun.skipped = start.skipped →
      Alike Related (first.toList.foldl (Prepared.add skip) start).files
          (second.toList.foldl (Prepared.add skip) begun).files ∧
        (second.toList.foldl (Prepared.add skip) begun).skipped =
          (first.toList.foldl (Prepared.add skip) start).skipped := by
    unfold Alike at h
    generalize first.toList = files at h
    generalize second.toList = others at h
    induction h with
    | nil => exact fun _ _ hbegun => hbegun
    | @cons file other _ _ hfile _ ih =>
        intro start begun hbegun
        refine ih _ _ ?_
        have hverdict := admit?_eq hfile.1 (hpart _ _ _ hfile.2) skip
        unfold Prepared.add
        rw [hverdict]
        split
        · exact hbegun
        · rename_i hkept
          refine ⟨hbegun.1.insert ?_, hbegun.2⟩
          rw [← Prepared.normalize_of_admit? hkept]
          exact hfile.2
        · exact ⟨hbegun.1, congrArg (· ++ _) hbegun.2⟩
  exact hrun _ _ ⟨.nil, rfl⟩

section Plan

variable (h : Alike Related first second)
  (hpart : ∀ path content other, Related path content other → SamePart path content other)

include h hpart

private theorem at?_eq (test : String → Bool)
    (htest : ∀ path content other, Related path content other → test content = test other)
    (path : String) : EntryPoint.at? second test path = EntryPoint.at? first test path := by
  unfold EntryPoint.at?
  have hrel := h.rel_get? path
  generalize first.get? path = content? at hrel
  generalize second.get? path = other? at hrel
  cases hrel with
  | none => rfl
  | @some content other hrelated =>
      have hsame := hpart path content other hrelated
      simp only [Option.bind_some, hsame.isUsable_eq, htest path content other hrelated,
        hsame.mounts]

private theorem withExtension?_eq (extension : String) :
    EntryPoint.withExtension? second extension = EntryPoint.withExtension? first extension := by
  unfold EntryPoint.withExtension?
  unfold Alike at h
  generalize first.toList = files at h
  generalize second.toList = others at h
  induction h with
  | nil => rfl
  | @cons file other files others hfile _ ih =>
      obtain ⟨path, content⟩ := file
      obtain ⟨_, other⟩ := other
      obtain ⟨rfl, hrelated⟩ := hfile
      have hsame := hpart _ _ _ hrelated
      rw [List.find?_cons, List.find?_cons]
      dsimp only
      rw [hsame.isUsable_eq]
      cases Path.extension? path == some extension && EntryPoint.isUsable path content with
      | true => exact congrArg some (congrArg (EntryPoint.mk path) hsame.mounts.symm)
      | false => exact ih

-- The entry is the same.
theorem detect?_eq : EntryPoint.detect? second = EntryPoint.detect? first := by
  have hmounts := at?_eq h hpart EntryPoint.mountsPage
    fun path content other hrelated => (hpart path content other hrelated).mounts
  have hany := at?_eq h hpart (fun _ => true) fun _ _ _ _ => rfl
  unfold EntryPoint.detect?
  rw [funext hmounts, funext hany, funext (withExtension?_eq h hpart)]

end Plan

-- From files that are alike the same is built, with contents that are alike.
theorem make (h : Alike (fun path => Related (Path.normalize path)) first second)
    (hpart : ∀ path content other, Related path content other → SamePart path content other)
    (hrefl : ∀ path content, Related path content content) {options : BundleOptions}
    {plan : BuildPlan} (hmake : BuildPlan.make options first = .ok plan) :
    ∃ later, BuildPlan.make options second = .ok later ∧ later.start = plan.start ∧
      Alike Related plan.files later.files := by
  obtain ⟨hprepared, _⟩ := h.prepare hpart options.skipInvalid
  obtain ⟨hfiles, hbundleable, entry, hentry, rfl⟩ := BuildPlan.make_eq_ok_iff.mp hmake
  refine ⟨_, BuildPlan.make_eq_ok_iff.mpr ⟨fun hnil => hfiles (h.toList_eq_nil_iff.mp hnil),
    fun hnil => hbundleable (hprepared.toList_eq_nil_iff.mp hnil), entry,
    (detect?_eq hprepared hpart).trans hentry, rfl⟩, ?_⟩
  unfold BuildPlan.ofEntry
  dsimp only
  rw [hprepared.freePath_eq]
  split
  · exact ⟨rfl, hprepared⟩
  · exact ⟨rfl, hprepared.insert (hrefl _ _)⟩

end Alike

end Sources

end LivePreview
