import LivePreview.Yaml.Token

/-!
From a YAML text to its tokens. Outside of brackets the column of a token tells in which block it is;
a block begins with its first item or key. Whether a scalar is a key shows only behind it, at a colon:
until then its place is remembered, and the marks of a key are put in there.
-/

namespace LivePreview.Yaml

/-- A place where a key may have begun. -/
structure MaybeKey where
  /-- Nothing but a key can stand there. -/
  isRequired : Bool
  /-- How many tokens were read before it. -/
  count : Nat
  index : Nat
  line : Nat
  column : Nat

/-- How far a text has been read. -/
structure Reading where
  rest : List Char
  index : Nat
  line : Nat
  column : Nat
  /-- How many brackets are open. -/
  depth : Nat
  /-- The column of the innermost block, or less than zero outside of all blocks. -/
  indent : Int
  /-- The columns of the blocks around it. -/
  outer : List Int
  /-- A key may begin here. -/
  allowsKey : Bool
  /-- Where a key may have begun, the innermost brackets first. -/
  keys : List (Option MaybeKey)
  /-- The tokens so far, the last one first. -/
  tokens : List Token

namespace Reading

/-- The start of a text. -/
def start (source : List Char) : Reading := ⟨source, 0, 0, 0, 0, -1, [], true, [none], []⟩

/-- The text is read among brackets. -/
def inFlow (r : Reading) : Bool := r.depth != 0

/-- One character is read. -/
def step (r : Reading) : Reading :=
  match r.rest with
  | [] => r
  | c :: rest =>
    let isBroken := isBreak c && !(c == '\r' && rest.head? == some '\n')
    if isBroken then { r with rest := rest, index := r.index + 1, line := r.line + 1, column := 0 }
    else { r with rest := rest, index := r.index + 1, column := r.column + 1 }

/-- So many characters are read. -/
def skip : Nat → Reading → Reading
  | 0, r => r
  | n + 1, r => skip n r.step

/-- The text is read up to a rest of it. -/
def upTo (rest : List Char) (r : Reading) : Reading := r.skip (r.rest.length - rest.length)

/-- One more token. -/
def emit (token : Token) (r : Reading) : Reading := { r with tokens := token :: r.tokens }

/-- A token at an earlier place. -/
def emitAt (count : Nat) (token : Token) (r : Reading) : Reading :=
  { r with tokens := r.tokens.insertIdx (r.tokens.length - count) token }

/-- A token of so many characters. -/
def mark (length : Nat) (token : Token) (r : Reading) : Reading := (r.emit token).skip length

/-- Blocks that reach further in than a column end. -/
def closeBlocks (column : Int) (r : Reading) : Reading :=
  if r.inFlow then r else go r.outer r
where
  /-- End the innermost block if need be, then those around it. -/
  go : List Int → Reading → Reading
    | [], r => r
    | outer :: more, r =>
      if column < r.indent then
        go more { r.emit .blockEnd with indent := outer, outer := more }
      else r

/-- A block begins at a column, unless one is there already. -/
def openBlock (column : Nat) (count : Nat) (token : Token) (r : Reading) : Reading :=
  if !r.inFlow && decide (r.indent < column) then
    { r with indent := column, outer := r.indent :: r.outer }.emitAt count token
  else r

/-- Keys may begin from here on, or may not. -/
def allowKey (allowed : Bool) (r : Reading) : Reading := { r with allowsKey := allowed }

/-- Give up the key that may have begun among the innermost brackets, if that can be. -/
def dropKey (r : Reading) : Option Reading :=
  match r.keys with
  | some key :: keys => if key.isRequired then none else some { r with keys := none :: keys }
  | _ => some r

/-- A key may begin here. -/
def noteKey (r : Reading) : Option Reading :=
  if r.allowsKey then do
    let isRequired := !r.inFlow && r.indent == r.column
    let r ← r.dropKey
    let key : MaybeKey := ⟨isRequired, r.tokens.length, r.index, r.line, r.column⟩
    pure { r with keys := some key :: r.keys.drop 1 }
  else some r

/-- Give up keys that have become too long: a key is on one line and has at most 1024 characters. -/
def dropLongKeys (r : Reading) : Option Reading := do
  let keys ← r.keys.mapM fun key? =>
    match key? with
    | none => some none
    | some key =>
      if key.line < r.line ∨ key.index + 1024 < r.index then
        if key.isRequired then none else some none
      else some (some key)
  pure { r with keys := keys }

/-- Pass over blanks, comments and line breaks. Behind a line break a key may begin. -/
def toNextToken : (fuel : Nat) → Reading → Reading
  | 0, r => r
  | fuel + 1, r =>
    let isGap (c : Char) : Bool := c == ' ' || (c == '\t' && (r.inFlow || !r.allowsKey))
    let r := r.upTo (r.rest.dropWhile isGap)
    let r := if r.rest.head? = some '#' then r.upTo (r.rest.dropWhile (!isBreak ·)) else r
    match lineBreak r.rest with
    | some (_, rest) =>
      let r := r.upTo rest
      toNextToken fuel (if r.inFlow then r else r.allowKey true)
    | none => r

/-- Brackets open. -/
def openFlow (token : Token) (r : Reading) : Option Reading := do
  let r ← r.noteKey
  pure ({ r with keys := none :: r.keys, depth := r.depth + 1 }.allowKey true |>.mark 1 token)

/-- Brackets close. -/
def closeFlow (token : Token) (r : Reading) : Option Reading := do
  let r ← r.dropKey
  let r := if r.inFlow then { r with keys := r.keys.drop 1, depth := r.depth - 1 } else r
  pure (r.allowKey false |>.mark 1 token)

/-- The mark between items among brackets. -/
def flowItem (r : Reading) : Option Reading := do
  pure ((← r.dropKey).allowKey true |>.mark 1 .flowItem)

/-- A block begins here, if it can. -/
def openBlockHere (token : Token) (r : Reading) : Option Reading :=
  if r.inFlow then some r
  else if r.allowsKey then some (r.openBlock r.column r.tokens.length token)
  else none

/-- The mark of an item. -/
def blockItem (r : Reading) : Option Reading := do
  let r ← r.openBlockHere .blockListStart
  pure ((← r.dropKey).allowKey true |>.mark 1 .blockItem)

/-- The mark of a key. -/
def keyMark (r : Reading) : Option Reading := do
  let r ← r.openBlockHere .blockRecordStart
  let r ← r.dropKey
  pure (r.allowKey (!r.inFlow) |>.mark 1 .key)

/-- The mark of a value: what may have been a key was one. -/
def valueMark (r : Reading) : Option Reading :=
  match r.keys with
  | some key :: keys =>
    let r := { r with keys := none :: keys }.emitAt key.count .key
    some (r.openBlock key.column key.count .blockRecordStart |>.allowKey false |>.mark 1 .value)
  | _ => do
    let r ← r.openBlockHere .blockRecordStart
    pure (r.allowKey (!r.inFlow) |>.mark 1 .value)

/-- The start or the end of a document, or a directive: all blocks end. -/
def margin (r : Reading) : Option Reading := do
  pure ((← (r.closeBlocks (-1)).dropKey).allowKey false)

/-- Something that may be a key, and the token that it is. -/
def word (r : Reading) (token : Token) (rest : List Char) : Option Reading := do
  pure ((← r.noteKey).allowKey false |>.emit token |>.upTo rest)

/-- An anchor or an alias. -/
def anchor (token : String → Token) (r : Reading) : Option Reading := do
  let (name, rest) ← anchorName (r.rest.drop 1)
  r.word (token name) rest

/-- A scalar in quotation marks. -/
def quoted (isDouble : Bool) (r : Reading) : Option Reading := do
  let (content, rest) ← quotedScalar isDouble (r.rest.drop 1)
  r.word (.scalar false (String.ofList content)) rest

/-- A scalar in a block. -/
def block (isLiteral : Bool) (r : Reading) : Option Reading := do
  let (content, rest) ← blockScalar isLiteral r.indent (r.rest.drop 1)
  pure ((← r.dropKey).allowKey true |>.emit (.scalar false (String.ofList content)) |>.upTo rest)

/-- A plain scalar. -/
def plain (r : Reading) : Option Reading := do
  let taken ← plainScalar r.inFlow (r.indent + 1).toNat r.rest
  let r ← r.word (.scalar true (String.ofList taken.content)) taken.rest
  pure (if taken.brokeLine then r.allowKey true else r)

/-- A character that begins no plain scalar. -/
def isMark (c : Char) : Bool := "-?:,[]\x7b\x7d#&*!|>'\"%@`".toList.contains c

/-- Read the token that begins with a character, of which `rest` is what follows. -/
def token (c : Char) (rest : List Char) (r : Reading) : Option Reading :=
  if r.column = 0 ∧ c = '%' then do
    let (token, later) ← directive rest
    pure ((← r.margin).emit token |>.upTo later)
  else if r.column = 0 ∧ isSeparator r.rest then do
    let token := if c = '-' then Token.documentStart else .documentEnd
    pure ((← r.margin).mark 3 token)
  else if c = '[' then r.openFlow .flowListStart
  else if c = '\x7b' then r.openFlow .flowRecordStart
  else if c = ']' then r.closeFlow .flowListEnd
  else if c = '\x7d' then r.closeFlow .flowRecordEnd
  else if c = ',' then r.flowItem
  else if c = '-' ∧ wordEnds rest then r.blockItem
  else if c = '?' ∧ (r.inFlow ∨ wordEnds rest) then r.keyMark
  else if c = ':' ∧ (r.inFlow ∨ wordEnds rest) then r.valueMark
  else if c = '*' then r.anchor .reference
  else if c = '&' then r.anchor .anchor
  else if c = '!' then do
    let (token, later) ← tag r.inFlow rest
    r.word token later
  else if c = '|' ∧ !r.inFlow then r.block true
  else if c = '>' ∧ !r.inFlow then r.block false
  else if c = '\'' then r.quoted false
  else if c = '"' then r.quoted true
  else if !(wordEnds r.rest || isMark c) || (c == '-' && !rest.head?.any isBlank) ||
      (!r.inFlow && (c == '?' || c == ':') && !wordEnds rest) then r.plain
  else none

/-- Read to the end of the text. -/
def finish : (fuel : Nat) → Reading → Option (List Token)
  | 0, _ => none
  | fuel + 1, r => do
    let r ← (r.toNextToken (r.rest.length + 1)).dropLongKeys
    let r := r.closeBlocks r.column
    match r.rest with
    | [] =>
      let r ← (r.closeBlocks (-1)).dropKey
      pure r.tokens.reverse
    | c :: rest => finish fuel (← r.token c rest)

end Reading

/-- A character that may stand in a text. -/
def isAllowed (c : Char) : Bool :=
  c == '\t' || c == '\n' || c == '\r' || (0x20 ≤ c.toNat && c.toNat ≤ 0x7E) || c == '\u0085' ||
    (0xA0 ≤ c.toNat && c.toNat ≤ 0xD7FF) || (0xE000 ≤ c.toNat && c.toNat ≤ 0xFFFD) ||
    0x10000 ≤ c.toNat

/-- The tokens of a text. A mark of the byte order at its start is passed over. -/
def tokens? (source : List Char) : Option (List Token) :=
  let source := if source.head? = some '\ufeff' then source.drop 1 else source
  if source.all isAllowed then (Reading.start source).finish (2 * source.length + 2) else none

end LivePreview.Yaml
