import LivePreview.Pattern.Matching
import LivePreview.Script.Form
import LivePreview.Text.Blank
import LivePreview.Text.NameSet
import LivePreview.Text.Search

/-!
What a script exports, as far as its text tells.
-/

namespace LivePreview.Script

/-- What a script is known to export. -/
structure ExportSet where
  /-- The names other than `default`. -/
  names : NameSet
  hasDefault : Bool
  /-- Some exports cannot be told from the text. -/
  isOpaque : Bool
deriving DecidableEq, Repr

namespace ExportSet

/-- The exports contain the name. -/
def provides (exports : ExportSet) (name : String) : Bool :=
  exports.isOpaque || if name = "default" then exports.hasDefault else exports.names.contains name

/-- The part of a text behind the last occurrence of a word, all of it if there is none. -/
def behindLast (word text : List Char) : List Char :=
  match Text.cut? word.reverse text.reverse with
  | some (behind, _) => behind.reverse
  | none => text

/-- The name under which an item of an export list is exported; none for an empty item. -/
def itemName? (item : List Char) : Option (List Char) :=
  let item := Text.trim (Text.dropRepeated "type ".toList (Text.trim item))
  if item = [] then none else some (Text.trim (behindLast " as ".toList item))

/-- The names that an export list exports. -/
def listedNames (items : List Char) : List (List Char) := (items.splitOn ',').filterMap itemName?

/-- The exports of a script. -/
def ofSource (source : List Char) : ExportSet :=
  let named (form : Pattern) : List String :=
    (form.findAll source).map fun found => String.ofList (found.group 1)
  let listed := (Form.exportedList.findAll source).flatMap fun found =>
    (listedNames (found.group 1)).map String.ofList
  { names := .ofList (named Form.exportedValue ++ named Form.exportedType ++
      named Form.exportedNamespace ++ listed.filter (· != "default"))
    hasDefault := Form.exportedDefault.occursIn source || listed.contains "default"
    isOpaque := Form.opaqueExport.occursIn source }

end ExportSet

end LivePreview.Script
