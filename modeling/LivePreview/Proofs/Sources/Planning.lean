import LivePreview.Bundle.Bundler
import LivePreview.Proofs.Sources.Spelling
import Mathlib.Data.List.Nodup
import Mathlib.Data.List.Perm.Subperm
import Mathlib.Order.Bounds.Defs

namespace LivePreview

theorem toString_inj {first second : Nat} (h : toString first = toString second) :
    first = second := by
  have hdigits : Nat.toDigits 10 first = Nat.toDigits 10 second := by
    rw [← Nat.toList_repr, ← Nat.toList_repr]
    exact congrArg String.toList h
  rw [← Nat.ofDigitChars_ten_toDigits (n := first), hdigits, Nat.ofDigitChars_ten_toDigits]

theorem numberedPath_inj {path : String} {first second : Nat}
    (h : numberedPath path first = numberedPath path second) : first = second := by
  have htext : ∀ text : String, toString text = text := fun _ => rfl
  have hplain : s!"{path}-{first}" = s!"{path}-{second}" → first = second := by
    intro heq
    have hlist := congrArg String.toList heq
    simp only [String.toList_append, htext, List.append_assoc] at hlist
    have hnumber := List.append_cancel_left (List.append_cancel_left hlist)
    exact toString_inj (String.toList_inj.mp hnumber)
  unfold numberedPath at h
  split at h
  · split at h
    · exact hplain h
    · rename_i stem suffix _ _
      have hlist := congrArg String.toList h
      simp only [String.toList_append, htext, List.append_assoc] at hlist
      have hnumber := List.append_cancel_left (List.append_cancel_left hlist)
      exact toString_inj (String.toList_inj.mp (List.append_cancel_right hnumber))
  · exact hplain h

-- There are more numbered forms of a path than files, so that one of them is free.
theorem Sources.contains_freePath (files : Sources) (path : String) :
    files.contains (files.freePath path) = false := by
  unfold freePath
  split
  · dsimp only
    generalize hnumbered : (List.range (files.size + 1)).map (fun n => numberedPath path (n + 1)) =
      numbered
    have hfree : ∃ form ∈ numbered, files.contains form = false := by
      by_contra hnone
      have hsubset : numbered ⊆ files.paths := by
        intro form hform
        rw [← contains_iff_mem_paths]
        by_contra hcontains
        exact hnone ⟨form, hform, Bool.eq_false_iff.mpr hcontains⟩
      have hnodup : numbered.Nodup := by
        rw [← hnumbered]
        exact List.Nodup.map (fun _ _ heq => Nat.succ.inj (numberedPath_inj heq)) List.nodup_range
      have hlength := (hnodup.subperm hsubset).length_le
      rw [← hnumbered, List.length_map, List.length_range, paths, List.length_map] at hlength
      exact Nat.not_succ_le_self _ hlength
    obtain ⟨form, hform, hcontains⟩ := hfree
    obtain ⟨first, hfirst⟩ := Option.isSome_iff_exists.mp
      (List.find?_isSome.mpr ⟨form, hform, by simpa using hcontains⟩ :
        (numbered.find? (!files.contains ·)).isSome = true)
    rw [hfirst, Option.getD_some]
    simpa using List.find?_some hfirst
  · rename_i hfree
    exact Bool.eq_false_iff.mpr hfree

namespace BuildPlan

variable {options : BundleOptions} {files : Sources} {plan : BuildPlan}

-- Files are built from if there are any, if some are left once they are prepared, and if one of
-- these can be the entry.
theorem make_eq_ok_iff :
    make options files = .ok plan ↔ files.toList ≠ [] ∧
      (files.prepare options.skipInvalid).files.toList ≠ [] ∧
      ∃ entry, EntryPoint.detect? (files.prepare options.skipInvalid).files = some entry ∧
        plan = ofEntry options (files.prepare options.skipInvalid).files
          ((files.prepare options.skipInvalid).skipped.map skippedWarning) entry := by
  unfold make
  dsimp only
  split
  · rename_i hnil
    simp [hnil]
  · rename_i hfiles
    split
    · rename_i hnil
      simp [hnil]
    · rename_i hprepared
      cases EntryPoint.detect? (files.prepare options.skipInvalid).files with
      | none => simp
      | some entry => simp [hfiles, hprepared, eq_comm]

-- What is built holds the prepared files as they are.
theorem get?_of_prepared (h : make options files = .ok plan) {path : String}
    (hpath : (files.prepare options.skipInvalid).files.contains path = true) :
    plan.files.get? path = (files.prepare options.skipInvalid).files.get? path := by
  obtain ⟨_, _, entry, _, rfl⟩ := make_eq_ok_iff.mp h
  unfold ofEntry
  split
  · rfl
  · dsimp only
    rw [Sources.get?_insert, if_neg]
    rintro rfl
    rw [Sources.contains_freePath] at hpath
    cases hpath

end BuildPlan

-- Where each path has one spelling, the file under that spelling is the one that is kept.
theorem Sources.get?_prepare_of_spelled {files : Sources} {skip : Bool} {path key : String}
    (hspelled : (files.paths.map Path.normalize).Nodup)
    (hkept : (files.prepare skip).files.contains path = true) (hkey : key ∈ files.paths)
    (hmeans : Path.normalize key = path) :
    (files.prepare skip).files.get? path = files.get? key := by
  obtain ⟨content, hget⟩ := Option.isSome_iff_exists.mp hkept
  obtain ⟨source, hsource, hsame⟩ := exists_of_get?_prepare hget
  have hin : source ∈ files.paths :=
    List.mem_map.mpr ⟨(source, content), get?_eq_some_iff.mp hsource, rfl⟩
  obtain rfl := List.inj_on_of_nodup_map hspelled hkey hin (hmeans.trans hsame.symm)
  rw [hget, hsource]

namespace Path

theorem splitLastDot?_dot {stem suffix : List Char} (h : '.' ∉ suffix) :
    splitLastDot? (stem ++ '.' :: suffix) = some (stem, suffix) := by
  have hreverse : (stem ++ '.' :: suffix).reverse = suffix.reverse ++ '.' :: stem.reverse := by simp
  have hsuffix : ∀ c ∈ suffix.reverse, (c != '.') = true := by
    intro c hc
    have hne : c ≠ '.' := ne_of_mem_of_not_mem (List.mem_reverse.mp hc) h
    simpa using hne
  rw [splitLastDot?, if_pos (by simp), hreverse, List.takeWhile_append_of_pos hsuffix,
    List.dropWhile_append_of_pos hsuffix]
  simp

theorem splitLastDot?_eq_some_iff {name stem suffix : List Char} :
    splitLastDot? name = some (stem, suffix) ↔ name = stem ++ '.' :: suffix ∧ '.' ∉ suffix := by
  constructor
  · intro h
    by_cases hdot : '.' ∈ name
    · obtain ⟨behind, front, hsplit, hbehind⟩ :=
        List.eq_append_cons_of_mem (List.mem_reverse.mpr hdot)
      obtain rfl : name = front.reverse ++ '.' :: behind.reverse := by
        rw [← List.reverse_reverse name, hsplit]
        simp
      have hlast : '.' ∉ behind.reverse := fun hmem => hbehind (List.mem_reverse.mp hmem)
      rw [splitLastDot?_dot hlast, Option.some.injEq, Prod.mk.injEq] at h
      obtain ⟨rfl, rfl⟩ := h
      exact ⟨rfl, hlast⟩
    · rw [splitLastDot?, if_neg hdot] at h
      cases h
  · rintro ⟨rfl, h⟩
    exact splitLastDot?_dot h

end Path

-- A path with a number: behind the stem of its last segment, if that has an extension, or else
-- behind the path.
inductive Numbered (n : Nat) : List Char → List Char → Prop
  | extended {stem extension : List Char} (hstem : stem ≠ []) (hdot : '.' ∉ extension)
      (hslash : '/' ∉ extension) :
      Numbered n (stem ++ '.' :: extension)
        (stem ++ '-' :: (Nat.toDigits 10 n ++ '.' :: extension))
  | plain {path : List Char} (h : ∀ stem extension, path = stem ++ '.' :: extension →
      '.' ∉ extension → stem = [] ∨ '/' ∈ extension) :
      Numbered n path (path ++ '-' :: Nat.toDigits 10 n)

theorem numbered_numberedPath (path : String) (n : Nat) :
    Numbered n path.toList (numberedPath path n).toList := by
  have htext : ∀ text : String, toString text = text := fun _ => rfl
  have hplain : (s!"{path}-{n}").toList = path.toList ++ '-' :: Nat.toDigits 10 n := by
    simp [htext]
  unfold numberedPath
  split
  · rename_i stem suffix hsplit
    obtain ⟨hpath, hdot⟩ := Path.splitLastDot?_eq_some_iff.mp hsplit
    split
    · rename_i hnone
      rw [hplain]
      refine .plain fun stem' suffix' hpath' hdot' => ?_
      obtain ⟨rfl, rfl⟩ : stem = stem' ∧ suffix = suffix' := by
        simpa [hsplit] using Path.splitLastDot?_eq_some_iff.mpr ⟨hpath', hdot'⟩
      exact hnone
    · rename_i hsome
      rw [not_or] at hsome
      have hform : (s!"{String.ofList stem}-{n}.{String.ofList suffix}").toList =
          stem ++ '-' :: (Nat.toDigits 10 n ++ '.' :: suffix) := by
        simp [htext]
      rw [hform, hpath]
      exact .extended hsome.1 hdot hsome.2
  · rename_i hnone
    rw [hplain]
    refine .plain fun stem suffix hpath hdot => ?_
    rw [Path.splitLastDot?_eq_some_iff.mpr ⟨hpath, hdot⟩] at hnone
    cases hnone

theorem Numbered.length_lt {n : Nat} {path numbered : List Char} (h : Numbered n path numbered) :
    path.length < numbered.length := by
  cases h with
  | extended =>
      simp only [List.length_append, List.length_cons]
      omega
  | plain =>
      simp only [List.length_append, List.length_cons]
      omega

namespace Sources

variable {files : Sources} {path : String}

-- A path that is taken is none of its numbered forms, so that not all files can have these.
theorem exists_free_numberedPath (h : files.contains path = true) :
    ∃ i < files.size, files.contains (numberedPath path (i + 1)) = false := by
  by_contra hnone
  simp only [not_exists, not_and, Bool.not_eq_false] at hnone
  have htaken : (path :: (List.range files.size).map fun i => numberedPath path (i + 1)) ⊆
      files.paths := by
    refine List.cons_subset.mpr ⟨contains_iff_mem_paths.mp h, fun form hform => ?_⟩
    obtain ⟨i, hi, rfl⟩ := List.mem_map.mp hform
    exact contains_iff_mem_paths.mp (hnone i (List.mem_range.mp hi))
  have hnodup : (path :: (List.range files.size).map fun i => numberedPath path (i + 1)).Nodup := by
    refine List.nodup_cons.mpr ⟨fun hmem => ?_, ?_⟩
    · obtain ⟨i, _, hsame⟩ := List.mem_map.mp hmem
      have hlonger := (numbered_numberedPath path (i + 1)).length_lt
      rw [hsame] at hlonger
      exact Nat.lt_irrefl _ hlonger
    · exact List.Nodup.map (fun _ _ heq => Nat.succ.inj (numberedPath_inj heq)) List.nodup_range
  have hlength := (hnodup.subperm htaken).length_le
  rw [List.length_cons, List.length_map, List.length_range, paths, List.length_map] at hlength
  exact Nat.not_succ_le_self _ hlength

-- Of a path that is taken the first numbered form that is free is found.
theorem exists_freePath_eq (h : files.contains path = true) :
    ∃ n ≤ files.size, files.freePath path = numberedPath path n ∧
      IsLeast {m | 1 ≤ m ∧ files.contains (numberedPath path m) = false} n := by
  obtain ⟨i, hi, hfree⟩ := exists_free_numberedPath h
  have hfound : ((List.range (files.size + 1)).find? fun i =>
      !files.contains (numberedPath path (i + 1))).isSome = true :=
    List.find?_isSome.mpr ⟨i, List.mem_range.mpr (Nat.lt_succ_of_lt hi), by simp [hfree]⟩
  obtain ⟨first, hfirst⟩ := Option.isSome_iff_exists.mp hfound
  obtain ⟨hfirstFree, _, hearlier⟩ := List.find?_range_eq_some.mp hfirst
  have hleast (m : Nat) (hm : files.contains (numberedPath path (m + 1)) = false) : first ≤ m := by
    by_contra hlt
    simpa [hm] using hearlier m (Nat.not_le.mp hlt)
  refine ⟨first + 1, Nat.lt_of_le_of_lt (hleast i hfree) hi, ?_, ⟨Nat.succ_pos _, ?_⟩, ?_⟩
  · rw [freePath, if_pos h]
    dsimp only
    rw [List.find?_map, Function.comp_def, hfirst]
    rfl
  · simpa using hfirstFree
  · rintro m ⟨hm, hmFree⟩
    obtain ⟨k, rfl⟩ := Nat.exists_eq_add_of_le' hm
    exact Nat.succ_le_succ (hleast k hmFree)

end Sources

-- The path of the wrapper is free: the one it is to have, or else the first of its numbered forms
-- that no file has, with a number no greater than the number of files. What is put there leaves the
-- files as they are, and so what is built holds all files that are prepared.
theorem Sources.freePath_least :
    (∀ (files : Sources) (path : String),
      files.contains (files.freePath path) = false ∧
      (files.contains path = false → files.freePath path = path) ∧
      (files.contains path = true → ∃ n ≤ files.size, files.freePath path = numberedPath path n ∧
        IsLeast {m | 1 ≤ m ∧ files.contains (numberedPath path m) = false} n) ∧
      (∀ n, Numbered n path.toList (numberedPath path n).toList) ∧
      ∀ content other, files.contains other = true →
        (files.insert (files.freePath path) content).get? other = files.get? other) ∧
    ∀ (options : BundleOptions) (files : Sources) (plan : BuildPlan),
      BuildPlan.make options files = .ok plan → ∀ path content,
        (files.prepare options.skipInvalid).files.get? path = some content →
          plan.files.get? path = some content := by
  constructor
  · intro files path
    refine ⟨files.contains_freePath path, fun h => ?_, Sources.exists_freePath_eq,
      numbered_numberedPath path, fun content other hother => ?_⟩
    · rw [Sources.freePath, h]
      rfl
    · rw [Sources.get?_insert, if_neg]
      rintro rfl
      rw [files.contains_freePath] at hother
      cases hother
  · intro options files plan hplan path content hcontent
    rw [BuildPlan.get?_of_prepared hplan, hcontent]
    rw [Sources.contains, hcontent]
    rfl

end LivePreview
