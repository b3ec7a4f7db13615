import LivePreview.Text.Place

/-!
A cursor in a text: what is still ahead and the byte offset of it. Readers move a cursor forward, and
that the text ahead gets shorter is what ends them.
-/

namespace LivePreview.Text

/-- What is ahead in a text, and the number of bytes behind. -/
structure Cursor where
  rest : List Char
  offset : Nat
deriving DecidableEq, Repr

namespace Cursor

/-- The start of a text. -/
def start (text : List Char) : Cursor := ⟨text, 0⟩

/-- The cursor behind the characters at its front that pass the test. -/
def skipWhile (test : Char → Bool) (c : Cursor) : Cursor :=
  ⟨c.rest.dropWhile test, c.offset + byteLength (c.rest.takeWhile test)⟩

/-- The cursor behind its first `count` characters. -/
def skip (count : Nat) (c : Cursor) : Cursor :=
  ⟨c.rest.drop count, c.offset + byteLength (c.rest.take count)⟩

theorem length_skipWhile_le (test : Char → Bool) (c : Cursor) :
    (c.skipWhile test).rest.length ≤ c.rest.length :=
  (List.dropWhile_sublist test).length_le

theorem length_skipWhile_lt {test : Char → Bool} {c : Cursor} {first : Char} {rest : List Char}
    (h : c.rest = first :: rest) (hfirst : test first = true) :
    (c.skipWhile test).rest.length < c.rest.length := by
  have := (List.dropWhile_sublist (l := rest) test).length_le
  simp only [skipWhile, h, List.dropWhile_cons, hfirst, if_true, List.length_cons]
  omega

theorem length_skip (count : Nat) (c : Cursor) :
    (c.skip count).rest.length = c.rest.length - count := by simp [skip]

/-- A cursor with less text ahead. -/
abbrev Beyond (c : Cursor) := { d : Cursor // d.rest.length < c.rest.length }

/-- A cursor with no more text ahead. -/
abbrev Onward (c : Cursor) := { d : Cursor // d.rest.length ≤ c.rest.length }

end Cursor

end LivePreview.Text
