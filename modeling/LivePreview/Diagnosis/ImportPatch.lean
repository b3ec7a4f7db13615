import LivePreview.Diagnosis.KnownName
import LivePreview.Pattern.Matching
import LivePreview.Text.Blank
import LivePreview.Text.Lines
import LivePreview.Text.Search

/-!
Adding the import of a known name to a script: into an import that the script has from the module, if
one can take the name, and otherwise as a statement of its own at the top.
-/

namespace LivePreview.ImportPatch

open Pattern

/-- An import from a module at the start of a line; group 1 is its clause. -/
def importFrom (module : String) : Pattern :=
  all [lineStart, text "import", blanks, group 1 (starLazy (noneOf ";'\"")), blanks, text "from",
    blanks, quoteMark, text module, quoteMark]

/-- The clause binds types only. -/
def bindsTypes (clause : List Char) : Bool :=
  match Text.after? "type".toList (Text.trimStart clause) with
  | some rest => rest.head?.any fun c => Text.isBlank c || c == '\x7b'
  | none => false

/-- The text without the given character at its end. -/
def dropTrailing (c : Char) (text : List Char) : List Char :=
  (text.reverse.dropWhile (· == c)).reverse

/-- The parts of an import clause: the name for the default export, empty if there is none, and the
items between the braces. -/
structure ClauseParts where
  default : List Char
  items : List (List Char)
deriving DecidableEq, Repr

namespace ClauseParts

/-- Read the parts of a clause. -/
def ofClause (clause : List Char) : ClauseParts :=
  match Text.cut? ['\x7b'] clause with
  | none => ⟨clause, []⟩
  | some (before, inner) =>
    { default := Text.trim (dropTrailing ',' (Text.trim before))
      items := ((dropTrailing '\x7d' (Text.trimEnd inner)).splitOn ',').filterMap fun item =>
        match Text.trim item with
        | [] => none
        | item => some item }

/-- Write a clause. -/
def render (parts : ClauseParts) : List Char :=
  let braces :=
    "\x7b ".toList ++ ", ".toList.intercalate parts.items ++ " \x7d".toList
  if parts.default = [] then braces
  else if parts.items = [] then parts.default
  else parts.default ++ ", ".toList ++ braces

end ClauseParts

/-- What comes of adding a name to a clause. -/
inductive Merge where
  | merged (clause : List Char)
  | alreadyBound
  /-- The clause cannot take the name. -/
  | incompatible
deriving DecidableEq, Repr

/-- Add a known name to a clause. -/
def merge (clause : List Char) (known : KnownName) : Merge :=
  let clause := Text.trim clause
  let name := known.name.toList
  if '*' ∈ clause then .incompatible
  else
    let parts := ClauseParts.ofClause clause
    if known.isDefault then
      if parts.default = name then .alreadyBound
      else if parts.default = [] then .merged { parts with default := name }.render
      else .incompatible
    else if parts.items.any fun item =>
        item == name || Text.endsWith (" as ".toList ++ name) item then .alreadyBound
    else .merged { parts with items := parts.items ++ [name] }.render

/-- The import statement for a known name. -/
def statement (known : KnownName) : String :=
  if known.isDefault then s!"import {known.name} from '{known.module}';\n"
  else "import \x7b " ++ known.name ++ " \x7d" ++ s!" from '{known.module}';\n"

/-- The line is a directive such as `'use client'`. -/
def isDirective (line : List Char) : Bool :=
  let trimmed := Text.trim line
  let unfinished := dropTrailing ';' trimmed
  (Text.startsWith "'use ".toList trimmed || Text.startsWith "\"use ".toList trimmed) &&
    (Text.endsWith ['\''] unfinished || Text.endsWith ['"'] unfinished)

/-- The directives at the top of a script. Directives that reach the end of the script without a line
feed count as none, so that a statement behind them would stand on its own line. -/
def directives (source : List Char) : List Char :=
  let lines := ((Text.linesWithEnds [] source).takeWhile isDirective).flatten
  if Text.endsWith ['\n'] lines then lines else []

/-- The edit that adds a name to the imports that were found, in their order: an import of types is
passed over, and so is one that cannot take the name. The outer none stands for no edit here, the
inner one for a name that is bound already. -/
def mergeFirst? (source : List Char) (known : KnownName) :
    List Match → Option (Option (List Char))
  | [] => none
  | found :: later =>
    match found.capture? 1 with
    | none => mergeFirst? source known later
    | some clause =>
      if bindsTypes clause.text then mergeFirst? source known later
      else match merge clause.text known with
        | .merged merged =>
          let before := source.take (source.length - clause.start.rest.length)
          some (some (before ++ merged ++ clause.stop.rest))
        | .alreadyBound => some none
        | .incompatible => mergeFirst? source known later

/-- The script with the import of a known name added; none if the name is imported already. -/
def addImport? (source : List Char) (known : KnownName) : Option (List Char) :=
  match mergeFirst? source known ((importFrom known.module).findAll source) with
  | some result => result
  | none =>
    let top := directives source
    some (top ++ (statement known).toList ++ source.drop top.length)

end LivePreview.ImportPatch
