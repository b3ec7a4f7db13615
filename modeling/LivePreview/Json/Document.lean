import LivePreview.Document.Basic
import LivePreview.Json.Basic

/-!
JSON as a format of documents. An integer may stand for a real number, and a list for a record.
-/

namespace LivePreview

instance : Document Json where
  isNull
    | .null => true
    | _ => false
  bool?
    | .bool b => some b
    | _ => none
  integer?
    | .integer n => some n
    | _ => none
  natural?
    | .integer n => if 0 ≤ n then some n.toNat else none
    | _ => none
  real?
    | .integer n => some (.ofInt n)
    | .real x => some x
    | _ => none
  text?
    | .text s => some s
    | _ => none
  fields?
    | .record fields => some fields
    | _ => none
  parts?
    | .list items => some items
    | _ => none
  toleratesSurplus := false

end LivePreview
