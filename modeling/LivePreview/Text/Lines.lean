/-!
Lines of a text. A line ends at a line feed, which is not part of it, nor is one carriage return
before it; a text that ends with a line feed has no empty last line.
-/

namespace LivePreview.Text

/-- A line without one trailing carriage return. -/
def dropCarriageReturn (line : List Char) : List Char :=
  if line.getLast? = some '\r' then line.dropLast else line

/-- The lines of a text, `current` being what is read of the first one. -/
def linesFrom (current : List Char) : List Char → List (List Char)
  | [] => if current = [] then [] else [current.reverse]
  | '\n' :: text => dropCarriageReturn current.reverse :: linesFrom [] text
  | c :: text => linesFrom (c :: current) text

/-- The lines of a text. -/
def lines (text : List Char) : List (List Char) := linesFrom [] text

/-- The lines of a text with the line feeds that end them. -/
def linesWithEnds (current : List Char) : List Char → List (List Char)
  | [] => if current = [] then [] else [current.reverse]
  | '\n' :: text => ('\n' :: current).reverse :: linesWithEnds [] text
  | c :: text => linesWithEnds (c :: current) text

end LivePreview.Text
