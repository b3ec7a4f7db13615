import LivePreview.Binary64.Shortest
import LivePreview.Text.Quoted

/-!
JSON values and their text. The fields of an object keep their order, and a name may stand twice.
-/

namespace LivePreview

/-- A JSON value. Whole numbers that were written as such are integers. -/
inductive Json where
  | null
  | bool (b : Bool)
  | integer (n : Int)
  | real (x : Binary64)
  | text (s : String)
  | list (items : List Json)
  | record (fields : List (String × Json))
deriving Repr, Inhabited

namespace Json

/-- The text of a real number; what is no number or infinite is `null`. -/
def realText (x : Binary64) : String :=
  if x.isFinite then Binary64.render ⟨true, some (-5, 16), "null", "null"⟩ x else "null"

mutual

/-- The text of a value on one line without blanks. -/
def compact : Json → String
  | null => "null"
  | bool b => if b then "true" else "false"
  | integer n => toString n
  | real x => realText x
  | text s => Text.quoted s
  | list items => "[" ++ ",".intercalate (compactItems items) ++ "]"
  | record fields => "\x7b" ++ ",".intercalate (compactFields fields) ++ "\x7d"

/-- The texts of the items of a list. -/
def compactItems : List Json → List String
  | [] => []
  | item :: items => compact item :: compactItems items

/-- The texts of the fields of an object. -/
def compactFields : List (String × Json) → List String
  | [] => []
  | (name, value) :: fields => (Text.quoted name ++ ":" ++ compact value) :: compactFields fields

end

mutual

/-- The text of a value on several lines, two blanks further in for each level. -/
def pretty (indent : String) : Json → String
  | list items =>
    let inner := indent ++ "  "
    if items.isEmpty then "[]"
    else "[\n" ++ ",\n".intercalate (prettyItems inner items) ++ "\n" ++ indent ++ "]"
  | record fields =>
    let inner := indent ++ "  "
    if fields.isEmpty then "\x7b\x7d"
    else "\x7b\n" ++ ",\n".intercalate (prettyFields inner fields) ++ "\n" ++ indent ++ "\x7d"
  | null => "null"
  | bool b => if b then "true" else "false"
  | integer n => toString n
  | real x => realText x
  | text s => Text.quoted s

/-- The lines of the items of a list. -/
def prettyItems (indent : String) : List Json → List String
  | [] => []
  | item :: items => (indent ++ pretty indent item) :: prettyItems indent items

/-- The lines of the fields of an object. -/
def prettyFields (indent : String) : List (String × Json) → List String
  | [] => []
  | (name, value) :: fields =>
    (indent ++ Text.quoted name ++ ": " ++ pretty indent value) :: prettyFields indent fields

end

/-- The value of an optional field. -/
def ofOption {α : Type} (encode : α → Json) : Option α → Json
  | none => null
  | some a => encode a

/-- The fields that have a value. -/
def present (fields : List (String × Option Json)) : List (String × Json) :=
  fields.filterMap fun field => field.2.map fun value => (field.1, value)

/-- A natural number as a value. -/
def nat (n : Nat) : Json := integer n

/-- A list of texts as a value. -/
def texts (items : List String) : Json := list (items.map text)

end Json

end LivePreview
