/-!
Plain searching in a text: what follows a leading word, the parts around the first occurrence of a
word, the pieces between all of its occurrences, and replacement of every occurrence.
-/

namespace LivePreview.Text

/-- What follows `word` at the start of the text, if the text starts with it. -/
def after? : (word text : List Char) → Option (List Char)
  | [], text => some text
  | _ :: _, [] => none
  | w :: word, c :: text => if w = c then after? word text else none

-- A text that starts with the word is the word and the rest.
theorem after?_eq_some_iff {word text rest : List Char} :
    after? word text = some rest ↔ text = word ++ rest := by
  induction word generalizing text with
  | nil => simp [after?, eq_comm]
  | cons w word ih =>
    cases text with
    | nil => simp [after?]
    | cons c text =>
      by_cases h : w = c
      · subst h; simp [after?, ih]
      · simp [after?, h, Ne.symm h]

/-- The text starts with the word. -/
def startsWith (word text : List Char) : Bool := (after? word text).isSome

/-- What stands before `word` at the end of the text, if the text ends with it. -/
def before? (word text : List Char) : Option (List Char) :=
  (after? word.reverse text.reverse).map List.reverse

/-- The text ends with the word. -/
def endsWith (word text : List Char) : Bool := (before? word text).isSome

/-- The word taken from the front of the text as often as it stands there. -/
def dropRepeated (word : List Char) (text : List Char) : List Char :=
  match _h : after? word text with
  | some rest => if word = [] then text else dropRepeated word rest
  | none => text
termination_by text.length
decreasing_by
  have hlen : text.length = word.length + rest.length := by
    rw [after?_eq_some_iff.1 _h, List.length_append]
  have hpos : 0 < word.length := List.length_pos_iff.2 ‹_›
  omega

/-- The parts before and after the first occurrence of `word`. -/
def cut? (word : List Char) : (text : List Char) → Option (List Char × List Char)
  | [] => if word = [] then some ([], []) else none
  | c :: text =>
    match after? word (c :: text) with
    | some rest => some ([], rest)
    | none => (cut? word text).map fun parts => (c :: parts.1, parts.2)

-- A cut gives the text back.
theorem eq_append_of_cut? {word text before after : List Char}
    (h : cut? word text = some (before, after)) : text = before ++ word ++ after := by
  induction text generalizing before after with
  | nil =>
    by_cases hw : word = []
    · simp_all [cut?]
    · simp [cut?, hw] at h
  | cons c text ih =>
    simp only [cut?] at h
    split at h
    · rename_i rest hrest
      obtain ⟨rfl, rfl⟩ := by simpa using h
      simpa using after?_eq_some_iff.1 hrest
    · obtain ⟨parts, hp, heq⟩ := Option.map_eq_some_iff.1 h
      obtain ⟨rfl, rfl⟩ := by simpa using heq
      have := ih hp
      simp [this]

/-- The word occurs in the text. -/
def contains (word text : List Char) : Bool := (cut? word text).isSome

/-- The pieces of the text between the occurrences of `word`, read from the left without overlap.
An empty word cuts nowhere. -/
def pieces (word : List Char) (text : List Char) : List (List Char) :=
  match _h : cut? word text with
  | none => [text]
  | some (before, after) => if word = [] then [text] else before :: pieces word after
termination_by text.length
decreasing_by
  have hlen := congrArg List.length (eq_append_of_cut? _h)
  have hpos : 0 < word.length := List.length_pos_iff.2 ‹_›
  simp at hlen
  omega

/-- Every occurrence of `word` gives way to `replacement`. An empty word stands between all
characters and at both ends. -/
def replaceAll (word replacement text : List Char) : List Char :=
  if word = [] then replacement ++ text.flatMap fun c => c :: replacement
  else replacement.intercalate (pieces word text)

end LivePreview.Text
