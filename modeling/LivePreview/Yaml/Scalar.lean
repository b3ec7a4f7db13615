import LivePreview.Text.Digit
import LivePreview.Text.Reader
import LivePreview.Yaml.Character

/-!
The texts of YAML scalars: plain, in quotation marks, and in blocks. Within the first two a line break
is folded into a blank, and further ones stand for themselves; a block keeps its lines apart or folds
them, and what it keeps of the breaks at its end is told in its first line.
-/

namespace LivePreview.Yaml

open Text (Reader)

/-- A line break, of which most kinds are the same. -/
def lineBreak : Reader Char
  | '\r' :: '\n' :: rest => some ('\n', rest)
  | c :: rest =>
    if c == '\u2028' || c == '\u2029' then some (c, rest)
    else if isBreak c then some ('\n', rest)
    else none
  | [] => none

/-- A line at the start of a text separates documents. -/
def isSeparator (source : List Char) : Bool :=
  (source.take 3 == ['-', '-', '-'] || source.take 3 == ['.', '.', '.']) && wordEnds (source.drop 3)

/-- Blanks and line breaks between the words of a scalar. -/
structure Gap where
  /-- The blanks before the first line break. -/
  blanks : List Char
  /-- The line breaks with the blanks behind each. -/
  lines : List (Char × List Char)

namespace Gap

/-- The blanks and line breaks at the front. -/
def take (source : List Char) : Gap × List Char :=
  let (blanks, rest) := Reader.span isBlank source
  let line : Reader (Char × List Char) := fun source =>
    (lineBreak source).map fun found => ((found.1, found.2.takeWhile isBlank), found.2.dropWhile isBlank)
  let (lines, rest) := Reader.many line rest
  (⟨blanks, lines⟩, rest)

/-- What the gap stands for. -/
def folded (gap : Gap) : List Char :=
  match gap.lines with
  | [] => gap.blanks
  | (first, _) :: more =>
    if first = '\n' then if more = [] then [' '] else more.map (·.1)
    else first :: more.map (·.1)

/-- What the gap stands for behind a hidden line break. -/
def afterHidden (gap : Gap) : List Char := gap.lines.map (·.1)

/-- The column behind the gap, if there is a line break in it. -/
def column? (gap : Gap) : Option Nat := gap.lines.getLast?.map (·.2.length)

/-- A tab stands where a line should be indented by blanks. -/
def hasTabBefore (gap : Gap) (indent : Nat) : Bool :=
  gap.lines.any fun line => (line.2.take indent).contains '\t'

end Gap

/-- A scalar that was read, and what is behind it. -/
structure Taken where
  content : List Char
  rest : List Char
  /-- There was a line break behind the last word. -/
  brokeLine : Bool

/-! Plain scalars -/

/-- A character that ends a plain scalar among brackets. -/
def isFlowMark (c : Char) : Bool := c == ',' || c == '[' || c == ']' || c == '\x7b' || c == '\x7d'

/-- A word of a plain scalar. Among brackets a colon may not stand before one. -/
def plainWord (inFlow : Bool) : Reader (List Char)
  | [] => some ([], [])
  | c :: rest =>
    if wordEnds (c :: rest) || (c == ':' && wordEnds rest) || (inFlow && isFlowMark c) then
      some ([], c :: rest)
    else if inFlow && c == ':' && rest.head?.any (fun d => isFlowMark d || d == '?') then none
    else (plainWord inFlow rest).map fun found => (c :: found.1, found.2)

/-- The rest of a plain scalar, behind a gap. Its lines are indented at least so far. -/
def plainRest (inFlow : Bool) (indent : Nat) :
    (fuel : Nat) → (read : List Char) → Gap → List Char → Option Taken
  | 0, _, _, _ => none
  | fuel + 1, read, gap, source => do
    let stop : Taken := ⟨read, source, !gap.lines.isEmpty⟩
    if gap.column? = some 0 ∧ isSeparator source then pure stop
    else if source.head? = some '#' then pure stop
    else
      let (word, rest) ← plainWord inFlow source
      if word = [] then pure stop
      else
        let read := read ++ gap.folded ++ word
        let (gap, later) := Gap.take rest
        if later.length = rest.length then pure ⟨read, rest, false⟩
        else if gap.hasTabBefore indent then none
        else if !inFlow && gap.column?.any (· < indent) then pure ⟨read, later, true⟩
        else plainRest inFlow indent fuel read gap later

/-- A plain scalar. -/
def plainScalar (inFlow : Bool) (indent : Nat) (source : List Char) : Option Taken :=
  plainRest inFlow indent (source.length + 1) [] ⟨[], []⟩ source

/-! Scalars in quotation marks -/

/-- What a backslash and one character after it stand for. -/
def shortEscapes : List (Char × Char) :=
  [('0', '\x00'), ('a', '\x07'), ('b', '\x08'), ('t', '\t'), ('\t', '\t'), ('n', '\n'),
    ('v', '\x0b'), ('f', '\x0c'), ('r', '\r'), ('e', '\x1b'), (' ', ' '), ('"', '"'), ('/', '/'),
    ('\\', '\\'), ('N', '\u0085'), ('_', '\u00a0'), ('L', '\u2028'), ('P', '\u2029')]

/-- The character that an escape stands for, behind its backslash. -/
def escape : Reader Char
  | [] => none
  | c :: rest =>
    match [('x', 2), ('u', 4), ('U', 8)].lookup c with
    | some count => Text.codeChar? count rest
    | none => (shortEscapes.lookup c).map fun plain => (plain, rest)

/-- A character of a word between double marks. -/
def doubleChar : Reader Char
  | '\\' :: rest => escape rest
  | c :: rest => if c = '"' ∨ wordEnds (c :: rest) then none else some (c, rest)
  | [] => none

/-- A character of a word between single marks, of which two stand for one. -/
def singleChar : Reader Char
  | '\'' :: '\'' :: rest => some ('\'', rest)
  | c :: rest => if c = '\'' ∨ wordEnds (c :: rest) then none else some (c, rest)
  | [] => none

/-- A line break that a backslash hides. -/
def hiddenBreak : Reader Unit
  | '\\' :: rest => (lineBreak rest).map fun found => ((), found.2)
  | _ => none

/-- The rest of a scalar in quotation marks; it begins a line if `atMargin` holds. -/
def quotedRest (isDouble : Bool) :
    (fuel : Nat) → (read : List Char) → (atMargin : Bool) → List Char → Option (List Char × List Char)
  | 0, _, _, _ => none
  | fuel + 1, read, atMargin, source => do
    if atMargin ∧ isSeparator source then none
    else
      let (word, rest) := Reader.many (if isDouble then doubleChar else singleChar) source
      let read := read ++ word
      match if isDouble then hiddenBreak rest else none with
      | some (_, rest) =>
        let (gap, later) := Gap.take rest
        let isMargin := gap.column?.getD gap.blanks.length == 0
        quotedRest isDouble fuel (read ++ gap.afterHidden) isMargin later
      | none =>
        match rest with
        | [] => none
        | c :: later =>
          if c = '"' ∧ isDouble ∨ c = '\'' ∧ !isDouble then pure (read, later)
          else if wordEnds rest then
            let (gap, later) := Gap.take rest
            quotedRest isDouble fuel (read ++ gap.folded) (gap.column? == some 0) later
          else none

/-- A scalar in quotation marks, behind the first one. -/
def quotedScalar (isDouble : Bool) (source : List Char) : Option (List Char × List Char) :=
  quotedRest isDouble (source.length + 1) [] false source

/-! Scalars in blocks -/

/-- What is kept of the line breaks at the end of a block. -/
inductive Chomping where
  | strip
  | clip
  | keep
deriving DecidableEq

/-- The first line of a block: what is kept at its end, and how far it is indented if that is told. -/
def blockHeader (source : List Char) : Option (Chomping × Option Nat × List Char) := do
  let chomping : Reader Chomping := fun source =>
    match source with
    | '+' :: rest => some (.keep, rest)
    | '-' :: rest => some (.strip, rest)
    | _ => none
  let indentation : Reader Nat := fun source =>
    match source with
    | c :: rest => if '1' ≤ c ∧ c ≤ '9' then some (c.toNat - 48, rest) else none
    | [] => none
  let (first?, rest) := match chomping source with
    | some (kept, rest) => (some kept, rest)
    | none => (none, source)
  let (indent?, rest) := match indentation rest with
    | some (n, rest) => (some n, rest)
    | none => (none, rest)
  let (kept, rest) := match first?, indent?, chomping rest with
    | none, some _, some (kept, rest) => (kept, rest)
    | _, _, _ => (first?.getD .clip, rest)
  let rest := match rest.dropWhile isBlank with
    | '#' :: comment => comment.dropWhile (!isBreak ·)
    | rest => rest
  if rest = [] then pure (kept, indent?, [])
  else pure (kept, indent?, (← lineBreak rest).2)

/-- Lines without content, and the indentation of the next line. -/
structure Margin where
  breaks : List Char
  /-- The blanks in front of the next line, as far as they are indentation. -/
  column : Nat
  /-- The most blanks in front of one of the lines. -/
  widest : Nat
  rest : List Char

/-- Lines without content. Where the indentation is known, blanks beyond it are content. -/
def Margin.take? (indent? : Option Nat) (source : List Char) : Option Margin :=
  let blanks (source : List Char) : Nat :=
    let all := (source.takeWhile (· == ' ')).length
    match indent? with
    | some indent => min all indent
    | none => all
  let emptyLine : Reader (Char × Nat) := fun source =>
    (lineBreak (source.drop (blanks source))).map fun found => ((found.1, blanks source), found.2)
  let (lines, rest) := Reader.many emptyLine source
  let column := blanks rest
  let later := rest.drop column
  if later.head? = some '\t' ∧ indent?.all (column < ·) then none
  else some ⟨lines.map (·.1), column, (lines.map (·.2)).foldl max column, later⟩

/-- The rest of a block from a line of it on. `ending` is the line break before the line, `breaks` are
those of the lines without content behind that, and `inset` tells that the line before began with a
blank. -/
def blockRest (isLiteral : Bool) (indent : Nat) :
    (fuel : Nat) → (read ending breaks : List Char) → (inset : Bool) → (column : Nat) → List Char →
      Option (List Char × List Char × List Char × List Char)
  | 0, _, _, _, _, _, _ => none
  | fuel + 1, read, ending, breaks, inset, column, source =>
    if column ≠ indent ∨ source = [] then some (read, ending, breaks, source)
    else do
      let isInset := source.head?.any isBlank
      let between := if !isLiteral && ending == ['\n'] && !inset && !isInset then
          if breaks = [] then [' '] else breaks
        else ending ++ breaks
      let (line, rest) := Reader.span (!isBreak ·) source
      let (ending, rest) := match lineBreak rest with
        | some (c, rest) => ([c], rest)
        | none => ([], rest)
      let margin ← Margin.take? (some indent) rest
      blockRest isLiteral indent fuel (read ++ between ++ line) ending margin.breaks isInset
        margin.column margin.rest

/-- A scalar in a block, behind its mark. The block is indented further than what it stands in. -/
def blockScalar (isLiteral : Bool) (outer : Int) (source : List Char) :
    Option (List Char × List Char) := do
  let (kept, indent?, rest) ← blockHeader source
  let told? := indent?.map fun n => (max outer 0).toNat + n
  let margin ← Margin.take? told? rest
  let indent := told?.getD (max margin.widest (max (outer + 1).toNat 1))
  let (read, ending, breaks, rest) ← blockRest isLiteral indent (rest.length + 1) [] [] margin.breaks
    false margin.column margin.rest
  pure (match kept with
    | .strip => (read, rest)
    | .clip => (read ++ ending, rest)
    | .keep => (read ++ ending ++ breaks, rest))

end LivePreview.Yaml
