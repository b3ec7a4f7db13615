/-!
Finite sets of names, listed in ascending order.
-/

namespace LivePreview

/-- A finite set of names. -/
structure NameSet where
  /-- The names in ascending order, each once. -/
  toList : List String
  ascending : toList.Pairwise (· < ·)

namespace NameSet

-- Equal lists of names are equal sets.
theorem ext {first second : NameSet} (h : first.toList = second.toList) : first = second := by
  cases first; cases second; cases h; rfl

instance : DecidableEq NameSet := fun first second =>
  decidable_of_iff (first.toList = second.toList) ⟨ext, fun h => h ▸ rfl⟩

instance : Repr NameSet := ⟨fun names => reprPrec names.toList⟩

/-- No names. -/
def empty : NameSet := ⟨[], .nil⟩

instance : Inhabited NameSet := ⟨empty⟩

/-- A name put in at its place in the order, unless it stands there already. -/
def insertName (name : String) : List String → List String
  | [] => [name]
  | other :: names =>
    if name < other then name :: other :: names
    else if name = other then other :: names
    else other :: insertName name names

@[simp] theorem mem_insertName {name other : String} {names : List String} :
    other ∈ insertName name names ↔ other = name ∨ other ∈ names := by
  induction names with
  | nil => simp [insertName]
  | cons head names ih =>
    simp only [insertName]
    split
    · simp
    · split
      · rename_i heq; subst heq; simp
      · simp only [List.mem_cons, ih]; grind

-- Putting in a name keeps the order.
theorem pairwise_insertName {name : String} {names : List String}
    (h : names.Pairwise (· < ·)) : (insertName name names).Pairwise (· < ·) := by
  induction names with
  | nil => simp [insertName]
  | cons head names ih =>
    obtain ⟨hhead, htail⟩ := List.pairwise_cons.1 h
    simp only [insertName]
    split
    · rename_i hlt
      refine List.pairwise_cons.2 ⟨fun other hother => ?_, h⟩
      rcases List.mem_cons.1 hother with rfl | hother
      · exact hlt
      · exact String.lt_trans hlt (hhead other hother)
    · split
      · exact h
      · rename_i hnot hne
        refine List.pairwise_cons.2 ⟨fun other hother => ?_, ih htail⟩
        rcases mem_insertName.1 hother with rfl | hother
        · grind
        · exact hhead other hother

/-- The set with one more name. -/
def insert (names : NameSet) (name : String) : NameSet :=
  ⟨insertName name names.toList, pairwise_insertName names.ascending⟩

/-- The set of the names of a list. -/
def ofList (names : List String) : NameSet := names.foldl insert empty

/-- The name belongs to the set. -/
def contains (names : NameSet) (name : String) : Bool := names.toList.contains name

end NameSet

end LivePreview
