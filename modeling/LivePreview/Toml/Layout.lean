import LivePreview.Json.Basic
import LivePreview.Word

/-!
TOML text of settings: sections of scalar settings, each under the header of its table. A text is
written in the first of several forms that needs no escapes it can do without.
-/

namespace LivePreview.Toml

/-- A text is written plainly or literally, on one line or on several. -/
structure TextForm where
  isLiteral : Bool
  isLong : Bool
deriving DecidableEq, Repr

/-- The length of the longest run of a character. -/
def longestRun (mark : Char) (s : List Char) : Nat :=
  let step (state : Nat × Nat) (c : Char) : Nat × Nat :=
    if c = mark then (state.1 + 1, max state.2 (state.1 + 1)) else (0, state.2)
  (s.foldl step (0, 0)).2

/-- A character that no text can hold as it is. -/
def isControl (c : Char) : Bool := (c.toNat < 0x20 && c != '\t' && c != '\n') || c.toNat == 0x7F

/-- The form in which a text is written. -/
def TextForm.best (s : List Char) : TextForm :=
  let coded := s.any isControl
  let broken := s.contains '\n'
  let escaped := s.contains '\\'
  let doubles := longestRun '"' s
  let singles := longestRun '\'' s
  if !coded && !escaped && doubles == 0 && !broken then ⟨false, false⟩
  else if !coded && singles == 0 && !broken then ⟨true, false⟩
  else if !coded && !escaped && doubles ≤ 2 then ⟨false, true⟩
  else if !coded && singles ≤ 2 then ⟨true, true⟩
  else ⟨false, broken⟩

/-- Four hexadecimal digits. -/
def fourDigits (n : Nat) : List Char :=
  let digits := (Nat.toDigits 16 n).map Char.toUpper
  List.replicate (4 - digits.length) '0' ++ digits

/-- A character of a plain text as it is written. -/
def escaped (isLong : Bool) (c : Char) : List Char :=
  if c = '\x08' then ['\\', 'b']
  else if c = '\t' then ['\\', 't']
  else if c = '\n' then if isLong then ['\n'] else ['\\', 'n']
  else if c = '\x0c' then ['\\', 'f']
  else if c = '\r' then ['\\', 'r']
  else if c = '\\' then ['\\', '\\']
  else if isControl c then '\\' :: 'u' :: fourDigits c.toNat
  else [c]

/-- A plain text as it is written between its marks: a quotation mark gets a backslash if `room` of
them in a row may stand without one and there were `marks` of them already. -/
def plainContent (isLong : Bool) (room : Nat) : (marks : Nat) → List Char → List Char
  | _, [] => []
  | marks, c :: rest =>
    if c = '"' then
      if marks < room then '"' :: plainContent isLong room (marks + 1) rest
      else '\\' :: '"' :: plainContent isLong room 0 rest
    else escaped isLong c ++ plainContent isLong room 0 rest

/-- A text as it is written. -/
def textValue (s : String) : String :=
  let form := TextForm.best s.toList
  let mark := if form.isLiteral then '\'' else '"'
  let marks := String.ofList (List.replicate (if form.isLong then 3 else 1) mark)
  let start := if form.isLong ∧ s.toList.contains '\n' then "\n" else ""
  let content := if form.isLiteral then s else
    String.ofList (plainContent form.isLong (if form.isLong then 2 else 0) 0 s.toList)
  marks ++ start ++ content ++ marks

/-- The text of a real number, never with an exponent. -/
def realText (x : Binary64) : String := Binary64.render ⟨true, none, "nan", "inf"⟩ x

/-- A name as it is written. -/
def nameText (name : String) : String :=
  let isBare (c : Char) : Bool := c.isAlphanum || c == '_' || c == '-'
  if name ≠ "" ∧ name.toList.all isBare then name
  else "\"" ++ String.ofList (plainContent false 0 0 name.toList) ++ "\""

/-- A value on one line. Integers have 64 bits, and there is no empty value. -/
def scalar? : Json → Option String
  | .bool b => some (if b then "true" else "false")
  | .integer n => if Word.fitsSigned 64 n then some (toString n) else none
  | .real x => some (realText x)
  | .text s => some (textValue s)
  | _ => none

/-- The lines of the settings that are no tables. -/
def lines? : List (String × Json) → Option (List String)
  | [] => some []
  | (_, .record _) :: fields => lines? fields
  | (name, value) :: fields => do
    let text ← scalar? value
    pure (s!"{nameText name} = {text}\n" :: (← lines? fields))

mutual

/-- The sections of a table: its own settings under its header, then the tables in it. A table that
holds nothing but tables has no header. -/
def sections? (path : List String) : Json → Option (List String)
  | .record fields => do
    let lines ← lines? fields
    let inner ← innerSections? path fields
    if lines = [] ∧ fields ≠ [] then pure inner
    else
      let header := "[" ++ ".".intercalate (path.map nameText) ++ "]\n"
      pure ((header ++ String.join lines) :: inner)
  | _ => some []

/-- The sections of the tables in a table. -/
def innerSections? (path : List String) : List (String × Json) → Option (List String)
  | [] => some []
  | (name, value) :: fields => do
    let own ← sections? (path ++ [name]) value
    pure (own ++ (← innerSections? path fields))

end

/-- The text of settings in tables. -/
def render? (fields : List (String × Json)) : Option String := do
  let lines ← lines? fields
  let sections ← innerSections? [] fields
  let own := if lines = [] then [] else [String.join lines]
  pure ("\n".intercalate (own ++ sections))

end LivePreview.Toml
