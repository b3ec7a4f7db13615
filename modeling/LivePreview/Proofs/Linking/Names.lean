import LivePreview.Linking.Clause
import LivePreview.Proofs.Linking.Replacements
import LivePreview.Proofs.Pattern.Reading
import LivePreview.Script.Tags

namespace LivePreview

namespace Text

theorem trimEnd_subset (text : List Char) : trimEnd text ⊆ text := by
  intro c hc
  rw [trimEnd, List.mem_reverse] at hc
  exact List.mem_reverse.mp ((List.dropWhile_sublist _).subset hc)

theorem trim_subset (text : List Char) : trim text ⊆ text :=
  List.Subset.trans (trimEnd_subset _) (List.dropWhile_sublist _).subset

end Text

namespace Linking

-- The name of an item of a list is part of the item.
theorem Renaming.name_subset_of_ofItem? {item : List Char} {pair : Renaming}
    (h : ofItem? item = some pair) : pair.name ⊆ item := by
  unfold ofItem? at h
  dsimp only at h
  split at h
  · cases h
  · split at h
    · rename_i name newName hcut
      cases h
      have hparts := Text.eq_append_of_cut? hcut
      refine List.Subset.trans (Text.trim_subset name)
        (List.Subset.trans ?_ (Text.trim_subset item))
      rw [hparts, List.append_assoc]
      exact List.subset_append_left _ _
    · cases h
      exact Text.trim_subset item

theorem Renaming.name_subset_of_mem_ofItems {items : List Char} {pair : Renaming}
    (h : pair ∈ ofItems items) : pair.name ⊆ items := by
  obtain ⟨item, hitem, hof⟩ := List.mem_filterMap.mp h
  refine List.Subset.trans (name_subset_of_ofItem? hof) ?_
  have hpart := infix_intercalate [','] hitem
  rw [List.intercalate_splitOn] at hpart
  exact hpart.subset

theorem dropClosingBraces_subset (text : List Char) : dropClosingBraces text ⊆ text := by
  intro c hc
  rw [dropClosingBraces, List.mem_reverse] at hc
  exact List.mem_reverse.mp ((List.dropWhile_sublist _).subset hc)

namespace ImportClause

theorem splitDefault_subset (clause : List Char) : (splitDefault clause).2 ⊆ clause := by
  unfold splitDefault
  split
  · exact List.Subset.refl _
  · exact List.Subset.refl _
  · exact List.Subset.refl _
  · exact List.Subset.trans (Text.trim_subset _) (List.drop_subset _ _)

-- The names that a clause imports are part of its text.
theorem name_subset_of_mem_named {clause : List Char} {pair : Renaming}
    (h : pair ∈ (parse clause).named) : pair.name ⊆ clause := by
  have hrest : (splitDefault (Text.trim clause)).2 ⊆ clause :=
    List.Subset.trans (splitDefault_subset _) (Text.trim_subset clause)
  unfold parse at h
  dsimp only at h
  split at h
  · cases h
  · rename_i rest hsplit
    rw [hsplit] at hrest
    have hitems : dropClosingBraces (Text.trimEnd rest) ⊆ clause :=
      List.Subset.trans (dropClosingBraces_subset _) (List.Subset.trans (Text.trimEnd_subset _)
        (List.Subset.trans (List.subset_cons_self _ _) hrest))
    exact List.Subset.trans (Renaming.name_subset_of_mem_ofItems h) hitems
  · cases h

end ImportClause

open Script Pattern

private def clauseChars : CharClass :=
  .union .word (.union .blank (.ofList ['$', '*', '\x7b', '\x7d', ',']))

private theorem groups_importStatement :
    Form.importStatement.groups = [(1, seq (text "type") blanks), (2, plusLazy (.set clauseChars)),
      (3, plus (noneOf "'\"\n"))] := rfl

-- A required export is called by a part of the clause, or it is the default one.
theorem colon_notMem_required {source : List Char} {found : Pattern.Match} {name : String}
    (hfound : found ∈ Form.importStatement.findAll source)
    (hname : name ∈ (ImportClause.parse (found.group 2)).required) : ':' ∉ name.toList := by
  intro hcolon
  rw [ImportClause.required, List.mem_append, List.mem_map] at hname
  rcases hname with ⟨pair, hmem, rfl⟩ | hdefault
  · rw [String.toList_ofList] at hcolon
    have hgroup := ImportClause.name_subset_of_mem_named hmem hcolon
    rcases group_reads (matchAt_of_mem_findAll hfound) 2 with hnil | ⟨body, hbody, hreads⟩
    · rw [hnil] at hgroup
      cases hgroup
    · obtain rfl : body = plusLazy (.set clauseChars) := by
        rw [groups_importStatement] at hbody
        simpa using hbody
      have hclass := hreads.of_rounds_set.2 ':' hgroup
      revert hclass
      decide
  · split at hdefault
    · rw [List.mem_singleton.mp hdefault] at hcolon
      revert hcolon
      decide
    · cases hdefault

end Linking

end LivePreview
