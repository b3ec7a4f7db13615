import LivePreview.Text.Blank
import LivePreview.Text.Search

/-!
The clause of an import statement: what it binds and under which names. `ImportClause.parse` reads a
clause, `ImportClause.render` writes the declarations that bind the same names to the exports of a
module that is at hand as an expression.
-/

namespace LivePreview.Linking

/-- A name on one side of a module boundary and the name it has on the other side. -/
structure Renaming where
  name : List Char
  newName : List Char
deriving DecidableEq, Repr

namespace Renaming

/-- Read an item `name` or `name as alias`. An empty item and one that starts with the word `type`
bind no value. -/
def ofItem? (item : List Char) : Option Renaming :=
  let item := Text.trim item
  if item = [] ∨ Text.startsWith "type ".toList item then none
  else match Text.cut? " as ".toList item with
    | some (name, newName) => some ⟨Text.trim name, Text.trim newName⟩
    | none => some ⟨item, item⟩

/-- The values named by the items between two braces. -/
def ofItems (items : List Char) : List Renaming := (items.splitOn ',').filterMap ofItem?

/-- The renaming as a field of a destructuring pattern. -/
def field (item : Renaming) : List Char :=
  if item.name = item.newName then item.name else item.name ++ ": ".toList ++ item.newName

end Renaming

/-- The text without the closing braces at its end. -/
def dropClosingBraces (text : List Char) : List Char :=
  (text.reverse.dropWhile (· == '\x7d')).reverse

/-- The alias behind the star in `* as alias`. -/
def starAlias (text : List Char) : List Char :=
  Text.trim (Text.dropRepeated "as".toList (Text.trim text))

/-- What an import statement binds. -/
structure ImportClause where
  /-- The name for the default export. -/
  default? : Option (List Char)
  /-- The name for the module as a whole. -/
  whole? : Option (List Char)
  /-- Exports and the names they are bound to. -/
  named : List Renaming
deriving DecidableEq, Repr

namespace ImportClause

/-- The name for the default export that leads a clause, and the rest of the clause. -/
def splitDefault (clause : List Char) : Option (List Char) × List Char :=
  match clause with
  | [] => (none, [])
  | '\x7b' :: _ => (none, clause)
  | '*' :: _ => (none, clause)
  | _ =>
    let default := clause.takeWhile (· != ',')
    (some (Text.trim default), Text.trim (clause.drop (default.length + 1)))

/-- Read a clause. -/
def parse (clause : List Char) : ImportClause :=
  let (default?, rest) := splitDefault (Text.trim clause)
  match rest with
  | '*' :: rest => ⟨default?, some (starAlias rest), []⟩
  | '\x7b' :: rest => ⟨default?, none, Renaming.ofItems (dropClosingBraces (Text.trimEnd rest))⟩
  | _ => ⟨default?, none, []⟩

/-- The exports that the imported module must have. -/
def required (clause : ImportClause) : List String :=
  clause.named.map (String.ofList ·.name) ++ if clause.default?.isSome then ["default"] else []

/-- The number of forms in which the clause reads the module. -/
def uses (clause : ImportClause) : Nat :=
  clause.default?.toList.length + clause.whole?.toList.length +
    if clause.named = [] then 0 else 1

/-- The declarations that bind the names of the clause to the exports of `source`. -/
def declarations (clause : ImportClause) (source : List Char) : List (List Char) :=
  let default := clause.default?.toList.map fun name =>
    "const ".toList ++ name ++ " = __forge_default(".toList ++ source ++ ");".toList
  let whole := clause.whole?.toList.map fun name =>
    "const ".toList ++ name ++ " = ".toList ++ source ++ ";".toList
  let named := if clause.named = [] then [] else
    ["const \x7b ".toList ++ ", ".toList.intercalate (clause.named.map Renaming.field) ++
      " \x7d = ".toList ++ source ++ ";".toList]
  default ++ whole ++ named

/-- The statements that take the place of an import of the module at hand as `module`. The module is
mentioned once: when it is read in several forms it gets a name, numbered by `count`. -/
def render (clause : ImportClause) (module : List Char) (count : Nat) : List Char :=
  if clause.uses = 0 then module ++ [';']
  else if clause.uses = 1 then [' '].intercalate (clause.declarations module)
  else
    let name := "__forge_m".toList ++ (toString count).toList
    let binding := "const ".toList ++ name ++ " = ".toList ++ module ++ [';']
    [' '].intercalate (binding :: clause.declarations name)

/-- The statement that takes the place of an import of a style sheet: the default, or else the
module as a whole, is an empty object. -/
def renderStyle (clause : ImportClause) : List Char :=
  match clause.default?.or clause.whole? with
  | some name => "const ".toList ++ name ++ " = \x7b\x7d;".toList
  | none => []

end ImportClause

end LivePreview.Linking
