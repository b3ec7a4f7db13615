import LivePreview.Pattern.Matching
import LivePreview.Script.Literal
import LivePreview.Text.Search

/-!
Capitalised tags of a script whose component is bound nowhere in it. A name counts as bound if it
stands anywhere but behind `<` or `</`, in a comment or a string too.
-/

namespace LivePreview.Script

/-- A tag of a component: `<` and a name that starts with a capital letter. -/
def componentTag : Pattern :=
  .seq (.char '<') (.group 1 (.seq (.set (.range 'A' 'Z')) (.star (.set
    (.union (.range 'A' 'Z') (.union (.range 'a' 'z') (.union (.range '0' '9')
      (.ofList ['_', '$']))))))))

/-- A character before which a tag may stand. -/
def precedesTag (c : Char) : Bool := Text.isBlank c || "(\x7b>?:,=[;&|".toList.contains c

/-- A character that may follow the name of a tag. -/
def followsTagName (c : Char) : Bool := Text.isBlank c || c == '/' || c == '>' || c == '.'

/-- The name stands somewhere outside tags; `beforeLast` and `last` are the two characters before
the text. -/
def boundIn (name : List Char) (beforeLast last : Option Char) (source : List Char) : Bool :=
  let standsHere := match Text.after? name source with
    | some rest => !last.any inName && !rest.head?.any inName &&
        !(last == some '<' || (last == some '/' && beforeLast == some '<'))
    | none => false
  standsHere || match source with
    | [] => false
    | c :: rest => boundIn name last (some c) rest

/-- The name stands in the script outside tags. -/
def isBound (source name : List Char) : Bool := boundIn name none none source

/-- The tags of a script as name and byte offset, in the order in which they stand. -/
def componentTags (source : List Char) : List (List Char × Nat) :=
  (componentTag.findAll source).filterMap fun found =>
    if found.start.last.all precedesTag && found.stop.rest.head?.any followsTagName then
      some (found.group 1, found.start.offset)
    else none

/-- The entries whose name did not stand in an earlier entry. -/
def firstOfEachName : (seen : List (List Char)) → List (List Char × Nat) → List (List Char × Nat)
  | _, [] => []
  | seen, tag :: tags =>
    if seen.contains tag.1 then firstOfEachName seen tags
    else tag :: firstOfEachName (tag.1 :: seen) tags

/-- The components that are used and bound nowhere: their names and the offsets of their first
tags. -/
def undeclaredComponents (source : List Char) : List (List Char × Nat) :=
  (firstOfEachName [] (componentTags source)).filter fun tag => !isBound source tag.1

end LivePreview.Script
