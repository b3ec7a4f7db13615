import LivePreview.Healing.Healer
import LivePreview.Proofs.Sources.Paths
import LivePreview.Sources

namespace LivePreview

namespace Sources

theorem lookup_cons (path : String) (head : String × String)
    (files : List (String × String)) :
    (head :: files).lookup path = if path = head.1 then some head.2 else files.lookup path := by
  rw [List.lookup_cons]
  by_cases h : path = head.1
  · rw [if_pos h, beq_iff_eq.mpr h]
  · rw [if_neg h, beq_eq_false_iff_ne.mpr h]

theorem lookup_insertEntry (path content other : String) (files : List (String × String)) :
    (insertEntry path content files).lookup other =
      if other = path then some content else files.lookup other := by
  induction files with
  | nil => rw [insertEntry, lookup_cons]
  | cons head files ih =>
      rw [insertEntry]
      split
      · rw [lookup_cons]
      · split
        · rename_i heq
          rw [lookup_cons, lookup_cons, ← heq]
          split <;> rfl
        · rename_i hne
          rw [lookup_cons, ih, lookup_cons]
          by_cases h : other = head.1
          · rw [if_pos h, if_pos h, if_neg fun he => hne (he.symm.trans h)]
          · rw [if_neg h, if_neg h]

@[simp] theorem get?_insert (files : Sources) (path content other : String) :
    (files.insert path content).get? other =
      if other = path then some content else files.get? other :=
  lookup_insertEntry path content other files.toList

@[simp] theorem get?_empty (path : String) : empty.get? path = none := rfl

-- What stands in the list of files is what the map holds.
theorem get?_eq_some_iff {files : Sources} {path content : String} :
    files.get? path = some content ↔ (path, content) ∈ files.toList := by
  obtain ⟨list, hascending⟩ := files
  show list.lookup path = some content ↔ (path, content) ∈ list
  induction list with
  | nil => simp
  | cons head rest ih =>
      obtain ⟨hhead, htail⟩ := List.pairwise_cons.mp hascending
      rw [lookup_cons, List.mem_cons]
      by_cases h : path = head.1
      · have hnot : (path, content) ∉ rest := fun hmem =>
          absurd (hhead _ hmem) (h ▸ String.lt_irrefl path)
        rw [if_pos h, or_iff_left hnot, Option.some.injEq, Prod.ext_iff]
        exact ⟨fun he => ⟨h, he.symm⟩, fun he => he.2.symm⟩
      · rw [if_neg h, ih htail]
        have hne : (path, content) ≠ head := fun he => h (congrArg Prod.fst he)
        exact (or_iff_right hne).symm

-- New content for a file is put in its place.
theorem paths_insert {files : Sources} {path content : String} (h : path ∈ files.paths) :
    (files.insert path content).paths = files.paths := by
  obtain ⟨list, hascending⟩ := files
  show (insertEntry path content list).map Prod.fst = list.map Prod.fst
  replace h : path ∈ list.map Prod.fst := h
  induction list with
  | nil => cases h
  | cons head rest ih =>
      obtain ⟨hhead, htail⟩ := List.pairwise_cons.mp hascending
      rw [List.map_cons, List.mem_cons] at h
      rw [insertEntry]
      split
      · rename_i hlt
        rcases h with rfl | h
        · exact absurd hlt (String.lt_irrefl _)
        · obtain ⟨file, hmem, rfl⟩ := List.mem_map.mp h
          exact absurd (String.lt_trans hlt (hhead file hmem)) (String.lt_irrefl _)
      · split
        · rename_i heq
          rw [List.map_cons, List.map_cons, heq]
        · rename_i hne
          rw [List.map_cons, List.map_cons, ih htail (h.resolve_left hne)]

end Sources

namespace Prepared

-- One more file is kept at its normal path, and only there.
theorem get?_add (skip : Bool) (prepared : Prepared) (file : String × String) (path : String) :
    (prepared.add skip file).files.get? path =
      if admit? skip file = some (path, true) then some file.2 else prepared.files.get? path := by
  unfold add
  split
  · rename_i hnone
    rw [hnone, if_neg (by simp)]
  · rename_i other hkept
    rw [hkept, Sources.get?_insert]
    by_cases h : path = other
    · rw [if_pos h, if_pos (by rw [h])]
    · rw [if_neg h, if_neg fun he => h (congrArg Prod.fst (Option.some.inj he)).symm]
  · rename_i other hskipped
    rw [hskipped, if_neg (by simp)]

-- Of all files for one path the last one counts.
theorem get?_foldl_add (skip : Bool) (files : List (String × String)) (path : String)
    (prepared : Prepared) :
    (files.foldl (add skip) prepared).files.get? path =
      (((files.filter fun file => admit? skip file = some (path, true)).getLast?).map (·.2)).or
        (prepared.files.get? path) := by
  induction files generalizing prepared with
  | nil => rfl
  | cons file files ih =>
      rw [List.foldl_cons, ih, get?_add, List.filter_cons]
      by_cases h : admit? skip file = some (path, true)
      · rw [if_pos h, if_pos (decide_eq_true h), List.getLast?_cons]
        cases (files.filter fun file => admit? skip file = some (path, true)).getLast? <;> rfl
      · rw [if_neg h, if_neg (by simpa using h)]

theorem normalize_of_admit? {skip kept : Bool} {file : String × String} {path : String}
    (h : admit? skip file = some (path, kept)) : Path.normalize file.1 = path := by
  unfold admit? at h
  split at h
  · obtain ⟨kind, _, hkind⟩ := Option.map_eq_some_iff.mp h
    exact congrArg Prod.fst hkind
  · cases h

end Prepared

namespace Sources

-- The content that is kept for a path is that of the last spelling of the path that is admitted.
theorem get?_prepare (files : Sources) (skip : Bool) (path : String) :
    (files.prepare skip).files.get? path =
      ((files.toList.filter fun file =>
        Prepared.admit? skip file = some (path, true)).getLast?).map (·.2) := by
  rw [prepare, Prepared.get?_foldl_add, get?_empty, Option.or_none]

-- What is kept for a path stood under a spelling of it.
theorem exists_of_get?_prepare {files : Sources} {skip : Bool} {path content : String}
    (h : (files.prepare skip).files.get? path = some content) :
    ∃ key, files.get? key = some content ∧ Path.normalize key = path := by
  rw [get?_prepare] at h
  obtain ⟨file, hlast, rfl⟩ := Option.map_eq_some_iff.mp h
  obtain ⟨hmem, hkept⟩ := List.mem_filter.mp (List.mem_of_getLast? hlast)
  exact ⟨file.1, get?_eq_some_iff.mpr hmem,
    Prepared.normalize_of_admit? (of_decide_eq_true hkept)⟩

theorem contains_iff_mem_paths {files : Sources} {path : String} :
    files.contains path = true ↔ path ∈ files.paths := by
  rw [contains, Option.isSome_iff_exists, paths, List.mem_map]
  constructor
  · rintro ⟨content, h⟩
    exact ⟨(path, content), get?_eq_some_iff.mp h, rfl⟩
  · rintro ⟨⟨key, content⟩, hmem, rfl⟩
    exact ⟨content, get?_eq_some_iff.mpr hmem⟩

-- The spelling of a path is one of the paths and means the same.
theorem spelling?_eq_some {files : Sources} {path key : String}
    (h : files.spelling? path = some key) :
    key ∈ files.paths ∧ Path.normalize key = Path.normalize path := by
  unfold spelling? at h
  split at h
  · rename_i hkey
    obtain rfl := Option.some.inj h
    exact ⟨contains_iff_mem_paths.mp hkey, rfl⟩
  · exact ⟨List.mem_of_find?_eq_some h, by simpa using List.find?_some h⟩

theorem exists_spelling? {files : Sources} {path key : String} (hmem : key ∈ files.paths)
    (hsame : Path.normalize key = Path.normalize path) :
    ∃ found, files.spelling? path = some found := by
  unfold spelling?
  split
  · exact ⟨path, rfl⟩
  · exact Option.isSome_iff_exists.mp (List.find?_isSome.mpr ⟨key, hmem, by simpa using hsame⟩)

end Sources

open Healing in
-- A diagnosis about a file of the bundle is repaired in a file that was handed over under a spelling
-- of its path, and that file holds what the bundle was made of if all spellings of the path do.
theorem Sources.get?_spelling {files : Sources} {skip : Bool} {path content : String}
    (hkept : (files.prepare skip).files.get? path = some content) :
    ∃ key held, files.spelling? path = some key ∧ files.get? key = some held ∧
      Path.normalize key = path ∧
      (∀ (result : BundleResult) (diagnosis : Diagnosis), diagnosis.location.file? = some path →
        Healer.target? files result diagnosis = some key) ∧
      ((∀ other there, files.get? other = some there → Path.normalize other = path →
        there = content) → held = content) := by
  obtain ⟨source, hsource, hmeans⟩ := exists_of_get?_prepare hkept
  have hnormal : Path.normalize path = path := hmeans ▸ Path.normalize_normalize source
  have hin : source ∈ files.paths :=
    List.mem_map.mpr ⟨(source, content), get?_eq_some_iff.mp hsource, rfl⟩
  obtain ⟨key, hkey⟩ := exists_spelling? hin (hmeans.trans hnormal.symm)
  obtain ⟨hmem, hsame⟩ := spelling?_eq_some hkey
  obtain ⟨held, hheld⟩ := Option.isSome_iff_exists.mp (contains_iff_mem_paths.mpr hmem)
  refine ⟨key, held, hkey, hheld, hsame.trans hnormal, ?_, fun hagree => ?_⟩
  · intro result diagnosis hfile
    rw [Healer.target?, hfile, Option.bind_some, hkey, Option.some_or]
  · exact hagree key held hheld (hsame.trans hnormal)

def Sources.agreeingSpellings : Sources :=
  .ofList [("/main.js", "r.mount(1)"), ("src/main.js", "r.mount(1)")]

theorem Sources.get?_spelling_agreeingSpellings :
    (agreeingSpellings.prepare true).files.get? "main.js" = some "r.mount(1)" ∧
      ∃ key, agreeingSpellings.spelling? "main.js" = some key ∧
        agreeingSpellings.get? key = some "r.mount(1)" := by
  have hkept : (agreeingSpellings.prepare true).files.get? "main.js" = some "r.mount(1)" := by
    decide +kernel
  obtain ⟨key, held, hkey, hheld, _, _, hagree⟩ := Sources.get?_spelling hkept
  refine ⟨hkept, key, hkey, ?_⟩
  rw [hheld, hagree]
  intro other there hother _
  have hall : ∀ file ∈ agreeingSpellings.toList, file.2 = "r.mount(1)" := by decide
  exact hall _ (get?_eq_some_iff.mp hother)

-- The repair goes to the exact spelling, the bundle is made of the later one.
def Sources.differingSpellings : Sources :=
  .ofList [("main.js", "r.mount(1)"), ("src/main.js", "r.mount(<X/>)")]

theorem Sources.spelling_strays_differingSpellings :
    (differingSpellings.prepare true).files.get? "main.js" = some "r.mount(<X/>)" ∧
      differingSpellings.spelling? "main.js" = some "main.js" ∧
      differingSpellings.get? "main.js" = some "r.mount(1)" := by
  decide +kernel

end LivePreview
