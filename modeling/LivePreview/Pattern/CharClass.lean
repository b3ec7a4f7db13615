import LivePreview.Text.Blank
import LivePreview.Text.CaseFold
import LivePreview.Text.Numeric
import LivePreview.Text.WordCharacter

/-!
Character classes, the one-character patterns.
-/

namespace LivePreview

/-- A set of characters as a pattern names it. -/
inductive CharClass where
  | none
  | one (c : Char)
  | range (low high : Char)
  | digit
  | blank
  | word
  | letter
  | numeric
  | union (first second : CharClass)
  | inter (first second : CharClass)
  | not (set : CharClass)
  /-- The characters equal to a member but for case. -/
  | anyCase (set : CharClass)
deriving DecidableEq, Repr

namespace CharClass

/-- The character belongs to the class. -/
def has : CharClass → Char → Bool
  | none, _ => false
  | one d, c => c == d
  | range low high, c => low ≤ c && c ≤ high
  | digit, c => Text.isDecimalDigit c
  | blank, c => Text.isBlank c
  | word, c => Text.isWordCharacter c
  | letter, c => Text.isLetter c
  | numeric, c => Text.isNumeric c
  | union first second, c => first.has c || second.has c
  | inter first second, c => first.has c && second.has c
  | not set, c => !set.has c
  | anyCase set, c => set.has c || (Text.caseVariants c).any set.has

/-- The class of the characters listed. -/
def ofList : List Char → CharClass
  | [] => none
  | [c] => one c
  | c :: cs => union (one c) (ofList cs)

/-- Every character but the line feed. -/
def exceptNewline : CharClass := not (one '\n')

/-- Every character. -/
def any : CharClass := not none

end CharClass

end LivePreview
