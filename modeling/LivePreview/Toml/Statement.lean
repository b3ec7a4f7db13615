import LivePreview.Toml.Number
import LivePreview.Toml.Quoted
import LivePreview.Toml.Table

/-!
A TOML text as a list of statements, one a line: headers of tables, headers of tables in a list, and
settings. Values may be nested 79 deep, and a dotted name may have 79 parts.
-/

namespace LivePreview.Toml

open Text (Reader)

/-- A character of a name without quotation marks. -/
def isNameChar (c : Char) : Bool := c.isAlphanum || c == '_' || c == '-'

/-- A part of a name. -/
def namePart : Reader String := fun source =>
  match source with
  | c :: _ =>
    if c = '"' ∨ c = '\'' then (shortText source).map fun found => (String.ofList found.1, found.2)
    else
      let (letters, rest) := Reader.span isNameChar source
      if letters = [] then none else some (String.ofList letters, rest)
  | [] => none

/-- The most parts that a name may have, and the most values that may be nested in one. -/
def depthLimit : Nat := 79

/-- A name of parts with points between them; at each point and at both ends there may be blanks. -/
def name : Reader (List String) := fun source => do
  let part := Reader.within (List.dropWhile isSpace) namePart
  let (parts, rest) ← Reader.separated (Reader.word ['.']) part source
  if parts.length ≤ depthLimit then pure (parts, rest) else none

/-- Blanks, line breaks and comments. -/
def dropFiller (source : List Char) : List Char :=
  let filler : Reader Unit := fun source =>
    match source with
    | '#' :: rest => some ((), rest.dropWhile isTextChar)
    | c :: rest => if isSpace c then some ((), rest) else lineBreak source
    | [] => none
  (Reader.many filler source).2

/-- A comma. -/
def comma : Reader Unit := Reader.word [',']

/-- The items of a list behind its opening bracket; a comma may stand behind the last one. -/
def listRest (value : Reader Toml) : Reader Toml := fun source =>
  let item := Reader.within dropFiller value
  match Reader.separated comma item source with
  | some (items, rest) => do
    let rest := ((comma rest).map fun found => dropFiller found.2).getD rest
    let (_, rest) ← Reader.word [']'] rest
    pure (.list items, rest)
  | none => (Reader.word [']'] (dropFiller source)).map fun found => (.list [], found.2)

/-- A setting: a name and its value. -/
def setting (value : Reader Toml) : Reader (List String × Toml) := fun source => do
  let (path, rest) ← name source
  let (_, rest) ← Reader.word ['='] rest
  let (v, rest) ← value (rest.dropWhile isSpace)
  pure ((path, v), rest)

/-- The fields of a table in braces behind the opening one. -/
def braceRest (value : Reader Toml) : Reader Toml := fun source => do
  let field : Reader (List String × Toml) := fun source =>
    (setting value source).map fun found => (found.1, found.2.dropWhile isSpace)
  let (fields, rest) := (Reader.separated comma field source).getD ([], source.dropWhile isSpace)
  let (_, rest) ← Reader.word ['\x7d'] rest
  let table ← Tree.ofSettings? fields
  pure (table.toToml, rest)

/-- A value in which so many values may be nested. -/
def value : (depth : Nat) → Reader Toml
  | 0, source => plain source
  | depth + 1, source =>
    match source with
    | '[' :: rest => listRest (value depth) rest
    | '\x7b' :: rest => braceRest (value depth) rest
    | _ => plain source
where
  /-- A value without others in it. -/
  plain : Reader Toml := fun source =>
    match source with
    | c :: _ =>
      if c = '"' ∨ c = '\'' then (quotedText source).map fun found => (.text (.ofList found.1), found.2)
      else wordValue source
    | [] => none

/-- The end of a line behind a statement: blanks, a comment, and a line break or the end of the
text. -/
def lineEnd (source : List Char) : Option (List Char) :=
  let rest := match source.dropWhile isSpace with
    | '#' :: comment => comment.dropWhile isTextChar
    | rest => rest
  if rest = [] then some [] else (lineBreak rest).map (·.2)

/-- The header of a table or of a table in a list, behind its first bracket. -/
def header : Reader Statement
  | '[' :: rest => do
    let (path, rest) ← name rest
    let (_, rest) ← Reader.word [']', ']'] rest
    pure (.item path, rest)
  | rest => do
    let (path, rest) ← name rest
    let (_, rest) ← Reader.word [']'] rest
    pure (.table path, rest)

/-- A statement with the end of its line. -/
def statement : Reader Statement := fun source => do
  let (statement, rest) ← match source with
    | '[' :: rest => header rest
    | _ => (setting (value depthLimit) source).map fun found => (.setting found.1.1 found.1.2, found.2)
  let rest ← lineEnd rest
  pure (statement, rest)

/-- The statements of a text. -/
def statements? (source : List Char) : Option (List Statement) :=
  let start := if source.head? = some '\ufeff' then source.drop 1 else source
  let next : Reader Statement := fun source => statement (dropFiller source)
  let (found, rest) := Reader.many next start
  if dropFiller rest = [] then some found else none

/-- The value that a text holds. -/
def parse? (source : String) : Option Toml := do
  let table ← Tree.ofStatements? (← statements? source.toList)
  pure table.toToml

end LivePreview.Toml
