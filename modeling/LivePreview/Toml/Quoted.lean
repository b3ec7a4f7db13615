import LivePreview.Text.Digit
import LivePreview.Text.Reader

/-!
TOML texts in quotation marks: plain ones, in which a backslash begins an escape, and literal ones, in
which nothing does; and of both kinds those over several lines, between three marks.
-/

namespace LivePreview.Toml

open Text (Reader)

/-- A blank within a line. -/
def isSpace (c : Char) : Bool := c == ' ' || c == '\t'

/-- A line break. -/
def lineBreak : Reader Unit
  | '\n' :: rest => some ((), rest)
  | '\r' :: '\n' :: rest => some ((), rest)
  | _ => none

/-- A character that may stand in a comment or in a text. -/
def isTextChar (c : Char) : Bool := c == '\t' || (0x20 ≤ c.toNat && c.toNat != 0x7F)

/-- The character that an escape stands for, behind its backslash. -/
def escape : Reader Char
  | 'b' :: rest => some ('\x08', rest)
  | 't' :: rest => some ('\t', rest)
  | 'n' :: rest => some ('\n', rest)
  | 'f' :: rest => some ('\x0c', rest)
  | 'r' :: rest => some ('\r', rest)
  | '"' :: rest => some ('"', rest)
  | '\\' :: rest => some ('\\', rest)
  | 'u' :: rest => Text.codeChar? 4 rest
  | 'U' :: rest => Text.codeChar? 8 rest
  | _ => none

/-- A character of a plain text on one line. -/
def plainChar : Reader Char
  | [] => none
  | '\\' :: rest => escape rest
  | c :: rest => if c ≠ '"' ∧ isTextChar c then some (c, rest) else none

/-- Blanks and line breaks. -/
def dropWhite : List Char → List Char
  | [] => []
  | '\r' :: '\n' :: rest => dropWhite rest
  | c :: rest => if isSpace c || c == '\n' then dropWhite rest else c :: rest

/-- A backslash at the end of a line hides the line break and all blanks behind it. -/
def hiddenBreak : Reader (List Char)
  | '\\' :: rest =>
    (lineBreak (rest.dropWhile isSpace)).map fun found => ([], dropWhite found.2)
  | _ => none

/-- Fewer marks in a row than would end a text over several lines. -/
def fewMarks (mark : Char) : Reader (List Char) := fun text =>
  let (marks, rest) := Reader.span (· == mark) text
  if 0 < marks.length ∧ marks.length < 3 then some (marks, rest) else none

/-- The end of a text over several lines: three marks, with one or two that belong to the text before
them. -/
def lastMarks (mark : Char) : Reader (List Char) := fun text =>
  let (marks, rest) := Reader.span (· == mark) text
  if 3 ≤ marks.length ∧ marks.length ≤ 5 then some (marks.drop 3, rest) else none

/-- A line break within a text. -/
def brokenLine : Reader (List Char) := fun text => (lineBreak text).map fun found => (['\n'], found.2)

/-- A piece of a plain text over several lines. -/
def plainPiece : Reader (List Char) := fun text =>
  (hiddenBreak text).or <| (brokenLine text).or <| (fewMarks '"' text).or <|
    (plainChar text).map fun found => ([found.1], found.2)

/-- A piece of a literal text over several lines. -/
def literalPiece : Reader (List Char) := fun text =>
  (brokenLine text).or <| (fewMarks '\'' text).or <|
    (Reader.one (fun c => c != '\'' && isTextChar c) text).map fun found => ([found.1], found.2)

/-- The rest of a text over several lines. A line break right at its start does not belong to it. -/
def longText (mark : Char) (piece : Reader (List Char)) : Reader (List Char) := fun text => do
  let start := ((lineBreak text).map (·.2)).getD text
  let (pieces, rest) := Reader.many piece start
  let (last, rest) ← lastMarks mark rest
  pure (pieces.flatten ++ last, rest)

/-- A text on one line. -/
def shortText : Reader (List Char)
  | '"' :: rest => do
    let (content, rest) := Reader.many plainChar rest
    let (_, rest) ← Reader.word ['"'] rest
    pure (content, rest)
  | '\'' :: rest => do
    let (content, rest) := Reader.span (fun c => c != '\'' && isTextChar c) rest
    let (_, rest) ← Reader.word ['\''] rest
    pure (content, rest)
  | _ => none

/-- A text in quotation marks. -/
def quotedText : Reader (List Char)
  | '"' :: '"' :: '"' :: rest => longText '"' plainPiece rest
  | '\'' :: '\'' :: '\'' :: rest => longText '\'' literalPiece rest
  | source => shortText source

end LivePreview.Toml
