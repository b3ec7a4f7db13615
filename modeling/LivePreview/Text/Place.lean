/-!
Places in a text. A place is a byte offset into the UTF-8 form; for people it is a line and a
column, both counted from one, the column in characters.
-/

namespace LivePreview.Text

/-- The number of bytes of a text in UTF-8. -/
def byteLength : List Char → Nat
  | [] => 0
  | c :: text => c.utf8Size + byteLength text

@[simp] theorem byteLength_nil : byteLength [] = 0 := rfl

@[simp] theorem byteLength_cons (c : Char) (text : List Char) :
    byteLength (c :: text) = c.utf8Size + byteLength text := rfl

@[simp] theorem byteLength_append (first second : List Char) :
    byteLength (first ++ second) = byteLength first + byteLength second := by
  induction first with
  | nil => simp
  | cons c first ih => simp [ih, Nat.add_assoc]

/-- The characters before a byte offset: all of them past the end, and none at all if the offset
falls inside a character. -/
def before (text : List Char) (offset : Nat) : Option (List Char) :=
  if offset = 0 then some []
  else match text with
    | [] => some []
    | c :: text =>
      if c.utf8Size ≤ offset then (before text (offset - c.utf8Size)).map (c :: ·) else none

/-- A line and a column, counted from one. -/
structure Place where
  line : Nat
  column : Nat
deriving DecidableEq, Repr

/-- The place one character further on. -/
def Place.step (place : Place) (c : Char) : Place :=
  if c = '\n' then ⟨place.line + 1, 1⟩ else ⟨place.line, place.column + 1⟩

/-- The place just after a text. -/
def placeAfter (text : List Char) : Place := text.foldl Place.step ⟨1, 1⟩

/-- The place of a byte offset; an offset past the end is the end, and an offset inside a character
has no place. -/
def placeAt? (text : List Char) (offset : Nat) : Option Place :=
  (before text offset).map placeAfter

end LivePreview.Text
