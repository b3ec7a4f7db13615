import LivePreview.Text.Blank
import LivePreview.Text.Cursor
import LivePreview.Text.Numeric

/-!
The parts of a script whose inside is skipped: comments, quoted strings and regular expressions. Each
skipping function starts behind the character or characters that open the part and stops behind the
ones that close it.
-/

namespace LivePreview.Script

open Text (Cursor)

/-- A character that may open a name. -/
def opensName (c : Char) : Bool := Text.isLetter c || c == '_' || c == '$'

/-- A character that may stand in a name. -/
def inName (c : Char) : Bool := Text.isAlphanumeric c || c == '_' || c == '$'

/-- A character that may stand in the name of an attribute. -/
def inAttributeName (c : Char) : Bool := inName c || c == '-' || c == ':'

/-- A character that may stand in the name of a tag. -/
def inTagName (c : Char) : Bool := inAttributeName c || c == '.'

/-- The end of a block comment: behind the first `*/`. -/
def skipComment (c : Cursor) : Option (Cursor.Onward c) :=
  match h : c.rest with
  | [] => none
  | '*' :: '/' :: rest => some ⟨⟨rest, c.offset + 2⟩, by rw [h]; exact Nat.le_add_right _ 2⟩
  | x :: rest =>
    have hlen : rest.length < c.rest.length := by rw [h]; exact Nat.lt_succ_self _
    (skipComment ⟨rest, c.offset + x.utf8Size⟩).map fun d =>
      ⟨d.1, Nat.le_of_lt (Nat.lt_of_le_of_lt d.2 hlen)⟩
termination_by c.rest.length
decreasing_by exact hlen

/-- The end of a quoted string: behind its second quotation mark, which stands on the same line. A
backslash takes the next character with it, a line feed too. -/
def skipString (quote : Char) (c : Cursor) : Option (Cursor.Onward c) :=
  match h : c.rest with
  | [] => none
  | x :: rest =>
    if x = '\n' then none
    else if x = '\\' then
      match hr : rest with
      | [] => none
      | y :: rest' => do
        have hd : rest'.length < c.rest.length := by simp only [h, List.length_cons]; omega
        let d ← skipString quote ⟨rest', c.offset + 1 + y.utf8Size⟩
        some ⟨d.1, by have := d.2; simp only at this; omega⟩
    else if x = quote then some ⟨⟨rest, c.offset + x.utf8Size⟩, by simp [h]⟩
    else do
      have hd : rest.length < c.rest.length := by simp [h]
      let d ← skipString quote ⟨rest, c.offset + x.utf8Size⟩
      some ⟨d.1, by have := d.2; simp only at this; omega⟩
termination_by c.rest.length

/-- The end of a regular expression: behind its closing slash and its flags. The slash stands on the
same line, and inside brackets a slash closes nothing. -/
def skipRegex (inClass : Bool) (c : Cursor) : Option (Cursor.Onward c) :=
  match h : c.rest with
  | [] => none
  | x :: rest =>
    have hd : rest.length < c.rest.length := by simp [h]
    if x = '\n' then none
    else if x = '\\' then do
      let start : Cursor := ⟨rest, c.offset + 1⟩
      have hskip := Cursor.length_skip 1 start
      have hstart : start.rest.length = rest.length := rfl
      have hd' : (start.skip 1).rest.length < c.rest.length := by omega
      let d ← skipRegex inClass (start.skip 1)
      some ⟨d.1, by have := d.2; omega⟩
    else if x = '/' ∧ inClass = false then
      some ⟨(⟨rest, c.offset + 1⟩ : Cursor).skipWhile inName,
        Nat.le_trans (Cursor.length_skipWhile_le _ _) (Nat.le_of_lt hd)⟩
    else do
      let inside := if x = '[' then true else if x = ']' then false else inClass
      let d ← skipRegex inside ⟨rest, c.offset + x.utf8Size⟩
      some ⟨d.1, by have := d.2; simp only at this; omega⟩
termination_by c.rest.length

end LivePreview.Script
