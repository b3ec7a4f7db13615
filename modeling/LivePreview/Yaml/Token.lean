import LivePreview.Yaml.Scalar

/-!
The tokens of a YAML text, and those that are read without regard to what is around them: directives,
anchors, aliases and tags.
-/

namespace LivePreview.Yaml

open Text (Reader)

/-- A token. Blocks are made by indentation, flows by brackets. -/
inductive Token where
  /-- The version of the language that is used. -/
  | version (major minor : Nat)
  /-- A handle for the front of tags. -/
  | tagHandle (handle : List Char)
  | documentStart
  | documentEnd
  | blockListStart
  | blockRecordStart
  | blockEnd
  | flowListStart
  | flowListEnd
  | flowRecordStart
  | flowRecordEnd
  /-- The mark of an item in a block. -/
  | blockItem
  /-- The mark between two items in a flow. -/
  | flowItem
  | key
  | value
  | reference (name : String)
  | anchor (name : String)
  /-- A tag that begins with a handle, if it begins with one. -/
  | tag (handle? : Option (List Char))
  | scalar (isPlain : Bool) (s : String)
deriving DecidableEq

/-- A character of a name. -/
def isNameChar (c : Char) : Bool := c.isAlphanum || c == '_' || c == '-'

/-- The name of an anchor or an alias, behind its mark. -/
def anchorName (source : List Char) : Option (String × List Char) :=
  let (name, rest) := Reader.span isNameChar source
  let isEnd := wordEnds rest || rest.head?.any ("?:,]\x7d%@`".toList.contains ·)
  if name ≠ [] ∧ isEnd then some (String.ofList name, rest) else none

/-- A character of a tag; commas and brackets only where they cannot be marks. -/
def isTagChar (anywhere : Bool) (c : Char) : Bool :=
  isNameChar c || ";/?:@&=+$.%!~*'()".toList.contains c || (anywhere && ",[]".toList.contains c)

/-- The characters of a tag. A percent sign is followed by two hexadecimal digits. -/
def tagText (anywhere : Bool) (source : List Char) : Option (List Char × List Char) :=
  let (content, rest) := Reader.span (isTagChar anywhere) source
  let rec coded : List Char → Bool
    | [] => true
    | '%' :: a :: b :: later => (Text.number? 16 [a, b]).isSome && coded later
    | '%' :: _ => false
    | _ :: later => coded later
  if coded content then some (content, rest) else none

/-- A tag behind its first mark: between angle brackets, with a handle or without one. -/
def tag (inFlow : Bool) (source : List Char) : Option (Token × List Char) := do
  let (token, rest) ← match source with
    | '<' :: rest => do
      let (content, rest) ← tagText true rest
      let (_, rest) ← Reader.word ['>'] rest
      if content = [] then none else pure (Token.tag none, rest)
    | _ => do
      let (name, rest) := Reader.span isNameChar source
      match rest with
      | '!' :: rest => do
        let (content, rest) ← tagText false rest
        if content = [] then none else pure (.tag (some ('!' :: name ++ ['!'])), rest)
      | _ => do
        let (content, rest) ← tagText false rest
        pure (.tag (if name ++ content = [] then none else some ['!']), rest)
  if wordEnds rest || (inFlow && rest.head? == some ',') then pure (token, rest) else none

/-- A number of at most nine digits. -/
def versionPart (source : List Char) : Option (Nat × List Char) :=
  let (digits, rest) := Reader.span Char.isDigit source
  if digits ≠ [] ∧ digits.length ≤ 9 then
    some (Text.decimal digits, rest)
  else none

/-- A directive behind its mark, with its line. -/
def directive (source : List Char) : Option (Token × List Char) := do
  let (name, rest) := Reader.span isNameChar source
  if !wordEnds rest then none
  else
    let rest := rest.dropWhile isBlank
    let (token, rest) ← if name = "YAML".toList then do
        let (major, rest) ← versionPart rest
        let (_, rest) ← Reader.word ['.'] rest
        let (minor, rest) ← versionPart rest
        pure (Token.version major minor, rest)
      else if name = "TAG".toList then do
        let (_, rest) ← Reader.word ['!'] rest
        let (handle, rest) := Reader.span isNameChar rest
        let (handle, rest) ← match rest with
          | '!' :: rest => some ('!' :: handle ++ ['!'], rest)
          | _ => if handle = [] then some (['!'], rest) else none
        if !rest.head?.any isBlank then none
        else
          let (content, rest) ← tagText true (rest.dropWhile isBlank)
          if content ≠ [] ∧ wordEnds rest then pure (.tagHandle handle, rest) else none
      else none
    let rest := match rest.dropWhile isBlank with
      | '#' :: comment => comment.dropWhile (!isBreak ·)
      | rest => rest
    if rest = [] then pure (token, []) else pure (token, (← lineBreak rest).2)

end LivePreview.Yaml
