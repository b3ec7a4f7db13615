import LivePreview.Text.Search
import Mathlib.Data.List.Infix

namespace LivePreview.Text

theorem contains_iff {word text : List Char} : contains word text = true ↔ word <:+: text := by
  constructor
  · intro h
    obtain ⟨⟨before, after⟩, hcut⟩ := Option.isSome_iff_exists.mp h
    exact ⟨before, after, (eq_append_of_cut? hcut).symm⟩
  · intro h
    induction text with
    | nil =>
        rw [List.infix_nil.mp h]
        rfl
    | cons c text ih =>
        unfold contains
        rw [cut?]
        cases hafter : after? word (c :: text) with
        | some rest => rfl
        | none =>
            rcases List.infix_cons_iff.mp h with ⟨rest, hprefix⟩ | hwithin
            · rw [after?_eq_some_iff.mpr hprefix.symm] at hafter
              cases hafter
            · dsimp only
              rw [Option.isSome_map]
              exact ih hwithin

-- A text in front without the first character of the word takes no part in a cut.
theorem cut?_append {w : Char} {word front : List Char} (h : w ∉ front) (text : List Char) :
    cut? (w :: word) (front ++ text) =
      (cut? (w :: word) text).map fun parts => (front ++ parts.1, parts.2) := by
  induction front with
  | nil => simp
  | cons c front ih =>
      rw [List.mem_cons, not_or] at h
      rw [List.cons_append, cut?, after?, if_neg h.1, ih h.2]
      dsimp only
      rw [Option.map_map]
      rfl

theorem cut?_char {c : Char} {front : List Char} (later : List Char) (h : c ∉ front) :
    cut? [c] (front ++ c :: later) = some (front, later) := by
  rw [cut?_append h]
  simp [cut?, after?]

theorem cut?_char_eq_none {c : Char} {text : List Char} (h : c ∉ text) : cut? [c] text = none := by
  have hnone : cut? [c] (text ++ []) = none := cut?_append h []
  rwa [List.append_nil] at hnone

-- What does not hold the character stands on one side of it.
theorem infix_of_infix_append_cons {word front back : List Char} {c : Char} (hc : c ∉ word)
    (h : word <:+: front ++ c :: back) : word <:+: front ∨ word <:+: back := by
  have hpart : ∀ part, part <+: c :: back → c ∉ part → part = [] := by
    intro part hpart hnot
    rcases List.prefix_cons_iff.mp hpart with rfl | ⟨more, rfl, _⟩
    · rfl
    · exact absurd List.mem_cons_self hnot
  rcases List.infix_append_iff.mp h with hfront | hback | ⟨first, last, rfl, hfirst, hlast⟩
  · exact .inl hfront
  · rcases List.infix_cons_iff.mp hback with hback | hback
    · rw [hpart word hback hc]
      exact .inl List.nil_infix
    · exact .inr hback
  · rw [hpart last hlast fun hmem => hc (List.mem_append_right _ hmem), List.append_nil]
    exact .inl hfirst.isInfix

-- A part in front without the first character of the word takes no part in it.
theorem infix_of_infix_append {w : Char} {word front text : List Char} (hw : w ∉ front)
    (h : w :: word <:+: front ++ text) : w :: word <:+: text := by
  rw [← contains_iff, contains] at h ⊢
  rwa [cut?_append hw, Option.isSome_map] at h

-- What holds none of the characters in front stands behind them.
theorem infix_of_disjoint {word front back : List Char} (h : word <:+: front ++ back)
    (hfront : ∀ c ∈ front, c ∉ word) : word <:+: back := by
  induction front with
  | nil => exact h
  | cons c front ih =>
      obtain ⟨hc, hfront⟩ := List.forall_mem_cons.mp hfront
      have hwhole : word <:+: [] ++ c :: (front ++ back) := h
      rcases infix_of_infix_append_cons hc hwhole with hwithin | hwithin
      · rw [List.infix_nil.mp hwithin]
        exact List.nil_infix
      · exact ih hwithin hfront

section Pieces

variable {word text before after front later : List Char}

-- A cut is made at the first occurrence.
theorem length_le_of_cut? (h : cut? word text = some (before, after))
    (hsplit : text = front ++ (word ++ later)) : before.length ≤ front.length := by
  induction text generalizing before front with
  | nil =>
      have hnil : before = [] ∧ word = [] ∧ after = [] := by
        simpa using (eq_append_of_cut? h).symm
      simp [hnil.1]
  | cons c text ih =>
      rw [cut?] at h
      split at h
      · obtain ⟨rfl, _⟩ := Prod.mk.inj (Option.some.inj h)
        exact Nat.zero_le _
      · rename_i hnot
        obtain ⟨⟨passed, rest⟩, hcut, hparts⟩ := Option.map_eq_some_iff.mp h
        obtain ⟨rfl, rfl⟩ := Prod.mk.inj hparts
        cases front with
        | nil =>
            rw [List.nil_append, ← after?_eq_some_iff, hnot] at hsplit
            cases hsplit
        | cons d front =>
            exact Nat.succ_le_succ (ih hcut (List.cons.inj hsplit).2)

theorem pieces_ne_nil (word text : List Char) : pieces word text ≠ [] := by
  unfold pieces
  split
  · exact List.cons_ne_nil _ _
  · split <;> exact List.cons_ne_nil _ _

-- The pieces with the word between them are the text.
theorem intercalate_pieces (word text : List Char) :
    word.intercalate (pieces word text) = text := by
  fun_induction pieces word text with
  | case1 => exact List.intercalate_singleton
  | case2 => exact List.intercalate_singleton
  | case3 text before after hcut hword ih =>
      rw [List.intercalate_cons_of_ne_nil (pieces_ne_nil word after), ih, eq_append_of_cut? hcut]

theorem mem_intercalate {parts : List (List Char)} {c : Char} (h : c ∈ word.intercalate parts) :
    (∃ part ∈ parts, c ∈ part) ∨ c ∈ word := by
  induction parts with
  | nil => cases h
  | cons part parts ih =>
      cases parts with
      | nil => exact .inl ⟨part, List.mem_singleton_self _, by rwa [List.intercalate_singleton] at h⟩
      | cons next parts =>
          rw [List.intercalate_cons_cons, List.append_assoc] at h
          rcases List.mem_append.mp h with hpart | hrest
          · exact .inl ⟨part, List.mem_cons_self, hpart⟩
          · rcases List.mem_append.mp hrest with hword | hrest
            · exact .inr hword
            · exact (ih hrest).imp_left fun ⟨other, hother, hc⟩ =>
                ⟨other, List.mem_cons_of_mem _ hother, hc⟩

theorem intercalate_append {first second : List (List Char)} (hfirst : first ≠ [])
    (hsecond : second ≠ []) : word.intercalate (first ++ second) =
      word.intercalate first ++ word ++ word.intercalate second := by
  induction first with
  | nil => contradiction
  | cons piece first ih =>
      rw [List.cons_append, List.intercalate_cons_of_ne_nil (by simp [hsecond])]
      by_cases hnil : first = []
      · rw [hnil, List.nil_append, List.intercalate_singleton]
      · rw [ih hnil, List.intercalate_cons_of_ne_nil hnil]
        simp only [List.append_assoc]

end Pieces

end LivePreview.Text
