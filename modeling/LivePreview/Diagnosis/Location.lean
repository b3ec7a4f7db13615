import LivePreview.Pattern.Matching
import LivePreview.Text.Digit
import LivePreview.Text.Search
import LivePreview.Word

/-!
The place that an error message names: that of its first stack frame, or else that of the first file
it mentions.
-/

namespace LivePreview

/-- A place in a file, as far as it is known. -/
structure Location where
  file? : Option String
  line? : Option Nat
  column? : Option Nat
deriving DecidableEq, Repr, Inhabited

namespace Location

open Pattern

/-- A stack frame. Group 1 is the file, group 2 the line, group 3 the column. -/
def frame : Pattern :=
  let caller := all [plus (.set (.not (.union .blank (.one '(')))), blanks]
  let file := plusLazy (.set (.not (.union .blank (.ofList ['(', ')']))))
  all [edge, text "at", blanks, maybe caller, maybe (char '('), group 1 file, char ':',
    group 2 digits, char ':', group 3 digits, maybe (char ')')]

/-- A file that is mentioned. Group 1 is the file, group 2 or 4 the line, group 3 or 5 the column. -/
def mention : Pattern :=
  let extension := oneOf [text "tsx", text "ts", text "jsx", text "js", text "mjs", text "cjs",
    text "css", text "json"]
  let path := all [plus (.set (.union .word (.ofList ['@', '.', '/', '-']))), char '.', extension]
  let colons := all [char ':', group 2 digits, maybe (all [char ':', group 3 digits])]
  let parentheses := all [char '(', group 4 digits, char ',', group 5 digits, char ')']
  all [group 1 path, maybe (oneOf [colons, parentheses])]

/-- The scheme and the host of an address. -/
def origin : Pattern :=
  let lower := CharClass.range 'a' 'z'
  let tail := CharClass.union lower (.union (.range '0' '9') (.ofList ['+', '.', '-']))
  all [.assert .textStart, .set lower, star (.set tail), text "://", star (noneOf "/")]

/-- The path of a file without what an address puts around it. -/
def barePath (file : List Char) : List Char :=
  let path := (origin.replaceFirst (fun _ => []) file).takeWhile fun c => c != '?' && c != '#'
  (Text.dropRepeated "./".toList path).dropWhile (· == '/')

/-- The number written in ASCII digits, if it has at most 32 bits. -/
def readNumber? (digits : List Char) : Option Nat :=
  if digits ≠ [] ∧ digits.all Char.isDigit then
    let n := Text.decimal digits
    if Word.fits 32 n then some n else none
  else none

/-- The number in a group. -/
def groupNumber? (found : Match) (index : Nat) : Option Nat :=
  (found.group? index).bind readNumber?

/-- The file in group 1. -/
def groupFile (found : Match) : String := String.ofList (barePath (found.group 1))

/-- The place that an error message names. -/
def ofMessage (raw : List Char) : Location :=
  match frame.find? raw with
  | some found => ⟨some (groupFile found), groupNumber? found 2, groupNumber? found 3⟩
  | none =>
    match mention.find? raw with
    | some found => ⟨some (groupFile found), (groupNumber? found 2).or (groupNumber? found 4),
        (groupNumber? found 3).or (groupNumber? found 5)⟩
    | none => ⟨none, none, none⟩

/-- The place as far as it is known; nothing without a file. -/
def text? (location : Location) : Option String :=
  location.file?.map fun file =>
    match location.line?, location.column? with
    | some line, some column => s!"{file}:{line}:{column}"
    | some line, none => s!"{file}:{line}"
    | none, _ => file

end Location

end LivePreview
