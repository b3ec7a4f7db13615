import LivePreview.Proofs.Pattern.Places
import Mathlib.Data.List.TakeWhile

namespace LivePreview.Text

section Offsets

variable {text : List Char} {offset : Nat}

-- The offset falls inside a character of several bytes.
def Inside (text : List Char) (offset : Nat) : Prop :=
  ∃ front c later, text = front ++ c :: later ∧ byteLength front < offset ∧
    offset < byteLength front + c.utf8Size

theorem inside_cons_iff {c : Char} : Inside (c :: text) offset ↔
    (0 < offset ∧ offset < c.utf8Size) ∨
      c.utf8Size ≤ offset ∧ Inside text (offset - c.utf8Size) := by
  constructor
  · rintro ⟨front, d, later, htext, hfront, hlater⟩
    cases front with
    | nil =>
        obtain ⟨rfl, rfl⟩ := List.cons.inj htext
        exact .inl ⟨hfront, by simpa using hlater⟩
    | cons e front =>
        obtain ⟨rfl, rfl⟩ := List.cons.inj htext
        rw [byteLength_cons] at hfront hlater
        exact .inr ⟨by omega, front, d, later, rfl, by omega, by omega⟩
  · rintro (⟨hpos, hlt⟩ | ⟨hle, front, d, later, rfl, hfront, hlater⟩)
    · exact ⟨[], c, text, rfl, hpos, by simpa using hlt⟩
    · refine ⟨c :: front, d, later, rfl, ?_, ?_⟩ <;> rw [byteLength_cons] <;> omega

theorem before_zero (text : List Char) : before text 0 = some [] := by
  rw [before.eq_def, if_pos rfl]

theorem before_cons {c : Char} (h : offset ≠ 0) : before (c :: text) offset =
    if c.utf8Size ≤ offset then (before text (offset - c.utf8Size)).map (c :: ·) else none := by
  rw [before.eq_def, if_neg h]

theorem before_of_byteLength_le (h : byteLength text ≤ offset) :
    before text offset = some text := by
  induction text generalizing offset with
  | nil =>
      rw [before.eq_def]
      exact ite_self _
  | cons c text ih =>
      have hpos := c.utf8Size_pos
      rw [byteLength_cons] at h
      rw [before_cons (by omega), if_pos (by omega), ih (by omega)]
      rfl

theorem isPrefix_of_before {front : List Char} (h : before text offset = some front) :
    front <+: text := by
  induction text generalizing offset front with
  | nil =>
      rw [before_of_byteLength_le (Nat.zero_le _)] at h
      exact Option.some.inj h ▸ List.prefix_rfl
  | cons c text ih =>
      by_cases hzero : offset = 0
      · rw [hzero, before_zero] at h
        exact Option.some.inj h ▸ List.nil_prefix
      rw [before_cons hzero] at h
      split at h
      · obtain ⟨shorter, hshorter, rfl⟩ := Option.map_eq_some_iff.mp h
        exact (List.cons_prefix_cons).mpr ⟨rfl, ih hshorter⟩
      · cases h

theorem before_eq_none_iff : before text offset = none ↔ Inside text offset := by
  induction text generalizing offset with
  | nil =>
      rw [before_of_byteLength_le (Nat.zero_le _)]
      simp [Inside]
  | cons c text ih =>
      rw [inside_cons_iff]
      by_cases hzero : offset = 0
      · have hpos := c.utf8Size_pos
        simp only [hzero, before_zero, reduceCtorEq, false_iff]
        omega
      rw [before_cons hzero]
      split
      · rename_i hle
        rw [Option.map_eq_none_iff, ih, and_iff_right hle, or_iff_right (by omega)]
      · rename_i hlt
        exact iff_of_true rfl (.inl (by omega))

-- An offset in the text is the length of a part in front, or it falls inside a character.
theorem exists_split_of_not_inside (h : ¬Inside text offset) (hle : offset ≤ byteLength text) :
    ∃ front later, text = front ++ later ∧ offset = byteLength front := by
  induction text generalizing offset with
  | nil => exact ⟨[], [], rfl, Nat.le_zero.mp hle⟩
  | cons c text ih =>
      by_cases hzero : offset = 0
      · exact ⟨[], c :: text, rfl, hzero⟩
      rw [inside_cons_iff, not_or, not_and, not_and] at h
      rw [byteLength_cons] at hle
      have hsize : c.utf8Size ≤ offset := Nat.not_lt.mp (h.1 (Nat.pos_of_ne_zero hzero))
      obtain ⟨front, later, rfl, hfront⟩ := ih (h.2 hsize) (by omega)
      refine ⟨c :: front, later, rfl, ?_⟩
      rw [byteLength_cons]
      omega

end Offsets

section Places

variable {front later : List Char}

-- In the order of lines, and of columns on one line.
def Place.Precedes (first second : Place) : Prop :=
  Prod.Lex (· < ·) (· < ·) (first.line, first.column) (second.line, second.column)

theorem Place.precedes_iff {first second : Place} : first.Precedes second ↔
    first.line < second.line ∨ first.line = second.line ∧ first.column < second.column :=
  Prod.lex_def

theorem Place.Precedes.trans {first second third : Place} (h : first.Precedes second)
    (h' : second.Precedes third) : first.Precedes third := by
  rw [precedes_iff] at *
  omega

theorem Place.not_precedes_self (place : Place) : ¬place.Precedes place := by
  rw [precedes_iff]
  omega

theorem Place.precedes_step (place : Place) (c : Char) : place.Precedes (place.step c) := by
  rw [precedes_iff, step]
  split
  · exact .inl (Nat.lt_succ_self _)
  · exact .inr ⟨rfl, Nat.lt_succ_self _⟩

theorem placeAfter_concat (text : List Char) (c : Char) :
    placeAfter (text ++ [c]) = (placeAfter text).step c := by
  rw [placeAfter, List.foldl_append]
  rfl

-- The line is counted by the line feeds, the column by the characters behind the last one.
theorem placeAfter_eq (text : List Char) :
    placeAfter text =
      ⟨text.count '\n' + 1, (text.reverse.takeWhile (· ≠ '\n')).length + 1⟩ := by
  induction text using List.reverseRecOn with
  | nil => rfl
  | append_singleton text c ih =>
      rw [placeAfter_concat, ih, Place.step, List.count_append, List.reverse_append,
        List.reverse_singleton, List.singleton_append, List.takeWhile_cons]
      split
      · rename_i hline
        simp [hline]
      · rename_i hplain
        simp [hplain]

-- No character counts for the line and for the column.
theorem line_add_column_placeAfter_le (text : List Char) :
    (placeAfter text).line + (placeAfter text).column ≤ text.length + 2 := by
  induction text using List.reverseRecOn with
  | nil => exact Nat.le_refl _
  | append_singleton text c ih =>
      have hcolumn : 0 < (placeAfter text).column := by
        rw [placeAfter_eq]
        exact Nat.succ_pos _
      rw [placeAfter_concat, Place.step, List.length_append, List.length_singleton]
      split <;> dsimp only <;> omega

-- Every character moves the place on.
theorem placeAfter_append_precedes (front : List Char) (h : later ≠ []) :
    (placeAfter front).Precedes (placeAfter (front ++ later)) := by
  induction later using List.reverseRecOn with
  | nil => exact absurd rfl h
  | append_singleton later c ih =>
      rw [← List.append_assoc, placeAfter_concat]
      by_cases hnil : later = []
      · rw [hnil, List.append_nil]
        exact Place.precedes_step _ c
      · exact (ih hnil).trans (Place.precedes_step _ c)

theorem placeAt?_append (front later : List Char) :
    placeAt? (front ++ later) (byteLength front) = some (placeAfter front) := by
  rw [placeAt?, before_append]
  rfl

end Places

section Order

variable {source : List Char} {first second : Nat} {place other : Place}

theorem placeAt?_of_byteLength_le {offset : Nat} (h : byteLength source ≤ offset) :
    placeAt? source offset = some (placeAfter source) := by
  rw [placeAt?, before_of_byteLength_le h]
  rfl

theorem placeAt?_eq_none_iff {offset : Nat} :
    placeAt? source offset = none ↔ Inside source offset := by
  rw [placeAt?, Option.map_eq_none_iff, before_eq_none_iff]

-- What has a place in the text has a part of the text in front.
theorem exists_split_of_placeAt? (hplace : placeAt? source first = some place)
    (h : first ≤ byteLength source) :
    ∃ front later,
      source = front ++ later ∧ first = byteLength front ∧ place = placeAfter front := by
  have hnot : ¬Inside source first := by
    rw [← placeAt?_eq_none_iff, hplace]
    exact nofun
  obtain ⟨front, later, rfl, rfl⟩ := exists_split_of_not_inside hnot h
  exact ⟨front, later, rfl, rfl, Option.some.inj (hplace.symm.trans (placeAt?_append front later))⟩

theorem precedes_of_lt (hplace : placeAt? source first = some place)
    (hother : placeAt? source second = some other) (h : first < second)
    (hsecond : second ≤ byteLength source) : place.Precedes other := by
  obtain ⟨front, later, hfront, rfl, rfl⟩ :=
    exists_split_of_placeAt? hplace (Nat.le_trans (Nat.le_of_lt h) hsecond)
  obtain ⟨longer, rest, hlonger, rfl, rfl⟩ := exists_split_of_placeAt? hother hsecond
  rcases List.append_eq_append_iff.mp (hfront.symm.trans hlonger) with
    ⟨between, rfl, _⟩ | ⟨between, rfl, _⟩
  · refine placeAfter_append_precedes front ?_
    rintro rfl
    rw [List.append_nil] at h
    exact Nat.lt_irrefl _ h
  · rw [byteLength_append] at h
    omega

end Order

end LivePreview.Text
