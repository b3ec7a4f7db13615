import LivePreview.Json.Basic
import LivePreview.Yaml.Basic
import LivePreview.Yaml.Character

/-!
YAML text of settings: records in blocks, two blanks further in for each level. A text is written
plainly if it then reads back as that text, in a block if it has several lines, and in quotation marks
otherwise.
-/

namespace LivePreview.Yaml.Layout

/-- How a text is written. -/
inductive Style where
  | plain
  | single
  | double
  | literal
deriving DecidableEq, Repr

/-- A character that is written as it is. -/
def isPrintable (c : Char) : Bool :=
  c == '\n' || (0x20 ≤ c.toNat && c.toNat ≤ 0x7E) || (0xA0 ≤ c.toNat && c.toNat ≤ 0xD7FF) ||
    (0xE000 ≤ c.toNat && c.toNat ≤ 0xFFFD && c != '\ufeff') || 0x10000 ≤ c.toNat

/-- The front of a text would be taken for a mark. -/
def startsWithMark : List Char → Bool
  | [] => false
  | c :: rest =>
    "#,[]\x7b\x7d&*!|>'\"%@`".toList.contains c || ((c == '?' || c == ':' || c == '-') && wordEnds rest)

/-- Somewhere in a text there is what would be taken for a mark; `before` is the character before. -/
def containsMark : (before : Char) → List Char → Bool
  | _, [] => false
  | before, c :: rest =>
    (c == ':' && wordEnds rest) || (c == '#' && wordEnds [before]) || containsMark c rest

/-- The text looks like the line between two documents. -/
def looksLikeSeparator (s : List Char) : Bool :=
  s.take 3 == ['-', '-', '-'] || s.take 3 == ['.', '.', '.']

/-- Two characters that pass two tests follow each other somewhere. -/
def hasPair (first second : Char → Bool) (s : List Char) : Bool :=
  (s.zip (s.drop 1)).any fun pair => first pair.1 && second pair.2

/-- Which styles can hold a text. -/
def allows (s : List Char) : Style → Bool
  | .double => true
  | .plain =>
    let inner := match s with
      | [] => false
      | c :: rest => containsMark c rest
    !(startsWithMark s || inner || looksLikeSeparator s) && s.all isPrintable && !s.any isBreak &&
      s.head? != some ' ' && s.getLast? != some ' '
  | .single =>
    s.all isPrintable && !hasPair isBreak (· == ' ') s && !hasPair (· == ' ') isBreak s
  | .literal =>
    s != [] && s.all isPrintable && !hasPair (· == ' ') isBreak s && s.getLast? != some ' '

/-- Words that once were truth values. -/
def formerBools : List String :=
  ["y", "Y", "yes", "Yes", "YES", "n", "N", "no", "No", "NO", "on", "On", "ON", "off", "Off", "OFF"]

/-- The text would be read as something else if it were written plainly. -/
def isAmbiguous (s : String) : Bool :=
  let word := s.toList
  let unsigned := if word.head?.any fun c => c == '-' || c == '+' then word.drop 1 else word
  isNull s || (bool? s).isSome || formerBools.contains s || (integer? word).isSome ||
    (real? s).isSome || (unsigned.length > 1 && unsigned.head? == some '0' && unsigned.all Char.isDigit)

/-- The style in which a text is written. -/
def Style.of (s : String) : Style :=
  let word := s.toList
  if word.contains '\n' then
    if allows word .literal then .literal else .double
  else if !isAmbiguous s && allows word .plain then .plain
  else if allows word .single then .single
  else .double

/-- Hexadecimal digits, so many of them. -/
def hexDigits (count n : Nat) : List Char :=
  let digits := (Nat.toDigits 16 n).map Char.toUpper
  List.replicate (count - digits.length) '0' ++ digits

/-- The characters that have an escape of one letter. -/
def shortEscapes : List (Char × Char) :=
  [('\x00', '0'), ('\x07', 'a'), ('\x08', 'b'), ('\t', 't'), ('\n', 'n'), ('\x0b', 'v'),
    ('\x0c', 'f'), ('\r', 'r'), ('\x1b', 'e'), ('"', '"'), ('\\', '\\'), ('\u0085', 'N'),
    ('\u2028', 'L'), ('\u2029', 'P')]

/-- A character between double marks. -/
def escaped (c : Char) : List Char :=
  match shortEscapes.lookup c with
  | some letter => ['\\', letter]
  | none =>
    if isPrintable c then [c]
    else if c.toNat ≤ 0xFF then '\\' :: 'x' :: hexDigits 2 c.toNat
    else if c.toNat ≤ 0xFFFF then '\\' :: 'u' :: hexDigits 4 c.toNat
    else '\\' :: 'U' :: hexDigits 8 c.toNat

/-- A text between single marks: a mark in it is written twice, and a line break is followed by the
indentation of the text. -/
def singleContent (indent : List Char) : List Char → List Char
  | [] => []
  | c :: rest =>
    if c = '\'' then '\'' :: '\'' :: singleContent indent rest
    else if isBreak c ∧ !rest.head?.any isBreak then c :: indent ++ singleContent indent rest
    else c :: singleContent indent rest

/-- What stands in the first line of a block: how far it is indented, if its first line begins with a
blank or is empty, and what becomes of the line breaks at its end. -/
def blockHeader (s : List Char) : List Char :=
  let hint := if s.head?.any fun c => c == ' ' || isBreak c then ['2'] else []
  let chomping := match s.reverse with
    | [] => ['-']
    | last :: before =>
      if !isBreak last then ['-'] else if before.head?.all isBreak then ['+'] else []
  hint ++ chomping

/-- The lines of a text in a block, each with its indentation unless it is empty; `atMargin` holds at
the start of a line. -/
def blockContent (indent : List Char) : (atMargin : Bool) → List Char → List Char
  | _, [] => []
  | atMargin, c :: rest =>
    if isBreak c then c :: blockContent indent true rest
    else if atMargin then indent ++ c :: blockContent indent false rest
    else c :: blockContent indent false rest

/-- A text as it is written at a level, with the line break behind it. -/
def textLine (indent : List Char) (s : String) : List Char :=
  match Style.of s with
  | .plain => s.toList ++ ['\n']
  | .single => '\'' :: singleContent indent s.toList ++ ['\'', '\n']
  | .double => '"' :: s.toList.flatMap escaped ++ ['"', '\n']
  | .literal =>
    let content := blockContent indent true s.toList
    let ending := if s.toList.getLast?.any isBreak then [] else ['\n']
    '|' :: blockHeader s.toList ++ '\n' :: content ++ ending

/-- The text of a real number. -/
def realText (x : Binary64) : String := Binary64.render ⟨true, some (-5, 16), ".nan", ".inf"⟩ x

mutual

/-- A value behind its name: a scalar on the same line, a record on the following ones. A list is
written as JSON, which is YAML too. -/
def value (indent : List Char) : Json → List Char
  | .record fields =>
    if fields.isEmpty then " \x7b\x7d\n".toList else '\n' :: entries indent fields
  | .list items => ' ' :: (Json.list items).compact.toList ++ ['\n']
  | .null => " null\n".toList
  | .bool b => if b then " true\n".toList else " false\n".toList
  | .integer n => ' ' :: (toString n).toList ++ ['\n']
  | .real x => ' ' :: (realText x).toList ++ ['\n']
  | .text s => ' ' :: textLine indent s

/-- The entries of a record, each on a line of its own. -/
def entries (indent : List Char) : List (String × Json) → List Char
  | [] => []
  | (name, v) :: fields =>
    indent ++ name.toList ++ ':' :: value (indent ++ [' ', ' ']) v ++ entries indent fields

end

end Layout

/-- The text of settings. -/
def render (fields : List (String × Json)) : String := String.ofList (Layout.entries [] fields)

end LivePreview.Yaml
