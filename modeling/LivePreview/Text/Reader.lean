/-!
Readers: functions that take something from the front of a text and give back the rest. A reader that
takes nothing is not tried again, so repetition ends with the text.
-/

namespace LivePreview.Text

/-- What takes an `α` from the front of a text. -/
abbrev Reader (α : Type) := List Char → Option (α × List Char)

namespace Reader

variable {α β : Type}

/-- One character that passes a test. -/
def one (test : Char → Bool) : Reader Char
  | [] => none
  | c :: rest => if test c then some (c, rest) else none

/-- As many characters as pass a test. -/
def span (test : Char → Bool) (text : List Char) : List Char × List Char :=
  (text.takeWhile test, text.dropWhile test)

/-- A word and what is behind it. -/
def word (letters : List Char) : Reader Unit
  | text => if letters.isPrefixOf text then some ((), text.drop letters.length) else none

/-- As many items as there are. -/
def many (item : Reader α) (text : List Char) : List α × List Char :=
  match item text with
  | none => ([], text)
  | some (a, rest) =>
    if rest.length < text.length then
      let (items, last) := many item rest
      (a :: items, last)
    else ([], text)
termination_by text.length

/-- Items with something between them, at least one. -/
def separated (between : Reader Unit) (item : Reader α) (text : List Char) :
    Option (List α × List Char) := do
  let (first, rest) ← item text
  let next (text : List Char) := (between text).bind fun found => item found.2
  let (items, rest) := many next rest
  pure (first :: items, rest)

/-- What stands before and behind an item is passed over. -/
def within (space : List Char → List Char) (item : Reader α) : Reader α := fun text => do
  let (a, rest) ← item (space text)
  pure (a, space rest)

end Reader

end LivePreview.Text
