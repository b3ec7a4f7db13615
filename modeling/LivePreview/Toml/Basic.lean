import LivePreview.Document.Basic

/-!
TOML values, and TOML as a format of documents: an integer may stand for a real number, and a list for
a record, of which it may name more parts than there are.
-/

namespace LivePreview

/-- A TOML value. -/
inductive Toml where
  | text (s : String)
  | integer (n : Int)
  | real (x : Binary64)
  | bool (b : Bool)
  /-- A date, a time, or both. -/
  | moment (s : String)
  | list (items : List Toml)
  | table (fields : List (String × Toml))
deriving Repr, Inhabited

-- A moment reads as a record with a field of its own, which no settings have.
instance : Document Toml where
  isNull _ := false
  bool?
    | .bool b => some b
    | _ => none
  integer?
    | .integer n => some n
    | _ => none
  natural?
    | .integer n => if 0 ≤ n then some n.toNat else none
    | _ => none
  real?
    | .integer n => some (.ofInt n)
    | .real x => some x
    | _ => none
  text?
    | .text s => some s
    | _ => none
  fields?
    | .table fields => some fields
    | .moment s => some [("", .text s)]
    | _ => none
  parts?
    | .list items => some items
    | _ => none
  toleratesSurplus := true

end LivePreview
