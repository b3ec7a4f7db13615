import LivePreview.Json.Basic
import LivePreview.Text.Cursor
import LivePreview.Text.Digit
import LivePreview.Word

/-!
Reading JSON text. A fault names what is wrong and where reading stopped: at a line and a column, the
column counting bytes. Values may be nested 127 deep.
-/

namespace LivePreview.Json

open Text (Cursor)

/-- What can be wrong with a JSON text. -/
inductive Fault where
  | unfinishedValue
  | unfinishedList
  | unfinishedRecord
  | unfinishedText
  | expectedColon
  | expectedCommaOrBracket
  | expectedCommaOrBrace
  | expectedWord
  | expectedValue
  | badEscape
  | badNumber
  | numberTooLarge
  | controlCharacter
  | nameNotQuoted
  | loneSurrogate
  | unpairedSurrogate
  | trailingComma
  | trailingCharacters
  | tooDeep
deriving DecidableEq, Repr

/-- What a fault is called. -/
def Fault.message : Fault → String
  | unfinishedValue => "EOF while parsing a value"
  | unfinishedList => "EOF while parsing a list"
  | unfinishedRecord => "EOF while parsing an object"
  | unfinishedText => "EOF while parsing a string"
  | expectedColon => "expected `:`"
  | expectedCommaOrBracket => "expected `,` or `]`"
  | expectedCommaOrBrace => "expected `,` or `\x7d`"
  | expectedWord => "expected ident"
  | expectedValue => "expected value"
  | badEscape => "invalid escape"
  | badNumber => "invalid number"
  | numberTooLarge => "number out of range"
  | controlCharacter => "control character (\\u0000-\\u001F) found while parsing a string"
  | nameNotQuoted => "key must be a string"
  | loneSurrogate => "lone leading surrogate in hex escape"
  | unpairedSurrogate => "unexpected end of hex escape"
  | trailingComma => "trailing comma"
  | trailingCharacters => "trailing characters"
  | tooDeep => "recursion limit exceeded"

/-- A fault and the number of bytes read when it was found. -/
structure Stop where
  fault : Fault
  offset : Nat
deriving DecidableEq, Repr

/-- A fault with the line and the column, in bytes, at which it was found. -/
structure Error where
  fault : Fault
  line : Nat
  column : Nat
deriving DecidableEq, Repr

/-- The full text of an error. -/
def Error.message (e : Error) : String :=
  s!"{e.fault.message} at line {e.line} column {e.column}"

/-- The line of a byte offset, and the byte offset at which that line starts; `reached` bytes, `line`
and `start` tell how far the walk through the text has come. -/
def lineStart (offset : Nat) : (source : List Char) → (reached line start : Nat) → Nat × Nat
  | [], _, line, start => (line, start)
  | c :: source, reached, line, start =>
    let next := reached + c.utf8Size
    if offset < next then (line, start)
    else if c = '\n' then lineStart offset source next (line + 1) next
    else lineStart offset source next line start

/-- A fault placed in its text. -/
def Stop.toError (source : List Char) (stop : Stop) : Error :=
  let (line, start) := lineStart stop.offset source 0 1 0
  ⟨stop.fault, line, stop.offset - start⟩

/-- A fault behind everything read so far. -/
def here {α : Type} (fault : Fault) (c : Cursor) : Except Stop α := .error ⟨fault, c.offset⟩

/-- A fault with the next byte, if there is one. -/
def ahead {α : Type} (fault : Fault) (c : Cursor) : Except Stop α :=
  .error ⟨fault, if c.rest.isEmpty then c.offset else c.offset + 1⟩

/-- A blank between tokens. -/
def isSpace (c : Char) : Bool := c == ' ' || c == '\n' || c == '\t' || c == '\r'

/-- The cursor at the next token. -/
def skipSpace (c : Cursor) : Cursor := c.skipWhile isSpace

/-- Four hexadecimal digits; they take four bytes of the text, whatever stands there. -/
def fourHexDigits (c : Cursor) : Except Stop (Nat × Cursor.Onward c) :=
  if Text.byteLength (c.rest.take 4) < 4 then
    .error ⟨.unfinishedText, c.offset + Text.byteLength c.rest⟩
  else
    match Text.number? 16 (c.rest.take 4) with
    | some n => .ok (n, ⟨c.skip 4, by simp [Cursor.length_skip]⟩)
    | none => .error ⟨.badEscape, c.offset + 4⟩

/-- The character of a `\u` escape. A leading surrogate needs a second escape with a trailing one. -/
def unicodeEscape (c : Cursor) : Except Stop (Char × Cursor.Onward c) := do
  let (n, d) ← fourHexDigits c
  if 0xDC00 ≤ n ∧ n ≤ 0xDFFF then here .loneSurrogate d
  else if n < 0xD800 ∨ 0xDBFF < n then pure (Char.ofNat n, d)
  else
    match h : d.1.rest with
    | [] => here .unfinishedText d
    | ['\\'] => .error ⟨.unfinishedText, d.1.offset + 1⟩
    | '\\' :: 'u' :: rest =>
      let (low, e) ← fourHexDigits ⟨rest, d.1.offset + 2⟩
      if low < 0xDC00 ∨ 0xDFFF < low then here .loneSurrogate e
      else
        let code := 0x10000 + (n - 0xD800) * 0x400 + (low - 0xDC00)
        have he : e.1.rest.length ≤ rest.length := e.2
        have hd : rest.length + 2 ≤ c.rest.length := by
          have := d.2; simp only [h, List.length_cons] at this; exact this
        pure (Char.ofNat code, ⟨e.1, by omega⟩)
    | '\\' :: _ => .error ⟨.unpairedSurrogate, d.1.offset + 2⟩
    | _ => .error ⟨.unpairedSurrogate, d.1.offset + 1⟩

/-- What a backslash and the character after it stand for, if that is a single character. -/
def simpleEscape? (c : Char) : Option Char :=
  if c = '"' then some '"'
  else if c = '\\' then some '\\'
  else if c = '/' then some '/'
  else if c = 'b' then some '\x08'
  else if c = 'f' then some '\x0c'
  else if c = 'n' then some '\n'
  else if c = 'r' then some '\r'
  else if c = 't' then some '\t'
  else none

/-- The character of a `\u` escape; without `limits` none for half of a surrogate pair. -/
def escapedChar? (limits : Bool) (c : Cursor) : Except Stop (Option Char × Cursor.Onward c) :=
  match unicodeEscape c with
  | .ok (ch, d) => .ok (some ch, d)
  | .error stop => if limits then .error stop else (fourHexDigits c).map fun r => (none, r.2)

/-- The rest of a text behind its opening quotation mark; `read` holds what was read of it, the last
character first. Without `limits` half of a surrogate pair is passed over, and the text is none. -/
def textRest (limits : Bool) (read : Option (List Char)) (c : Cursor) :
    Except Stop (Option (List Char) × Cursor.Onward c) :=
  match h : c.rest with
  | [] => here .unfinishedText c
  | '"' :: rest => .ok (read.map List.reverse, ⟨⟨rest, c.offset + 1⟩, by simp [h]⟩)
  | ['\\'] => .error ⟨.unfinishedText, c.offset + 1⟩
  | '\\' :: 'u' :: rest => do
    let (ch, d) ← escapedChar? limits ⟨rest, c.offset + 2⟩
    have hd : d.1.rest.length < c.rest.length := by
      have : d.1.rest.length ≤ rest.length := d.2
      rw [h, List.length_cons, List.length_cons]; omega
    let (chars, e) ← textRest limits (read.bind fun read => ch.map (· :: read)) d.1
    pure (chars, ⟨e.1, by have := e.2; omega⟩)
  | '\\' :: ch :: rest =>
    match simpleEscape? ch with
    | some plain => do
      have hd : rest.length < c.rest.length := by rw [h, List.length_cons, List.length_cons]; omega
      let (chars, e) ← textRest limits (read.map (plain :: ·)) ⟨rest, c.offset + 2⟩
      pure (chars, ⟨e.1, by have := e.2; simp only at this; omega⟩)
    | none => .error ⟨.badEscape, c.offset + 2⟩
  | ch :: rest =>
    if ch.toNat < 0x20 then .error ⟨.controlCharacter, c.offset + 1⟩
    else do
      have hd : rest.length < c.rest.length := by simp [h]
      let (chars, e) ← textRest limits (read.map (ch :: ·)) ⟨rest, c.offset + ch.utf8Size⟩
      pure (chars, ⟨e.1, by have := e.2; simp only at this; omega⟩)
termination_by c.rest.length

/-- A number with a fraction or an exponent, or an integer too large to be kept as one. -/
def realOf (limits negative : Bool) (digits : Nat) (exponent : Int) (c : Cursor) :
    Except Stop Json :=
  let x := Binary64.ofDecimal negative digits exponent
  if limits && !x.isFinite then here .numberTooLarge c else .ok (.real x)

/-- The exponent of a number, behind its letter. -/
def exponentPart (c : Cursor) : Except Stop (Int × Cursor.Onward c) :=
  let signed := c.rest.head?.any fun s => s == '+' || s == '-'
  let d := if signed then c.skip 1 else c
  have hd : d.rest.length ≤ c.rest.length := by
    simp only [d]; split
    · simp [Cursor.length_skip]
    · exact Nat.le_refl _
  match d.rest with
  | [] => here .unfinishedValue d
  | s :: _ =>
    if s.isDigit then
      let n : Int := Text.decimal (d.rest.takeWhile Char.isDigit)
      let e := d.skipWhile Char.isDigit
      .ok (if c.rest.head? = some '-' then -n else n,
        ⟨e, Nat.le_trans (Cursor.length_skipWhile_le _ d) hd⟩)
    else .error ⟨.badNumber, d.offset + 1⟩

/-- What follows the whole part of a number. -/
def numberTail (limits negative : Bool) (whole : List Char) (c : Cursor) :
    Except Stop (Json × Cursor.Onward c) :=
  match h : c.rest with
  | '.' :: rest => do
    let start : Cursor := ⟨rest, c.offset + 1⟩
    let fraction := rest.takeWhile Char.isDigit
    let d := start.skipWhile Char.isDigit
    have hd : d.rest.length ≤ c.rest.length := by
      have hle : d.rest.length ≤ rest.length := Cursor.length_skipWhile_le Char.isDigit start
      rw [h, List.length_cons]; exact Nat.le_succ_of_le hle
    if fraction = [] then
      if rest = [] then here .unfinishedValue start else ahead .badNumber start
    else
      let digits := Text.decimal (whole ++ fraction)
      if d.rest.head?.any fun e => e == 'e' || e == 'E' then
        let (n, e) ← exponentPart (d.skip 1)
        let value ← realOf limits negative digits (n - fraction.length) e
        have he : e.1.rest.length ≤ (d.skip 1).rest.length := e.2
        have hskip := Cursor.length_skip 1 d
        pure (value, ⟨e.1, by omega⟩)
      else
        let value ← realOf limits negative digits (-(fraction.length : Int)) d
        pure (value, ⟨d, hd⟩)
  | e :: _ =>
    if e = 'e' ∨ e = 'E' then do
      let (n, d) ← exponentPart (c.skip 1)
      let value ← realOf limits negative (Text.decimal whole) n d
      have hd : d.1.rest.length ≤ (c.skip 1).rest.length := d.2
      have hskip := Cursor.length_skip 1 c
      pure (value, ⟨d.1, by omega⟩)
    else integer c
  | [] => integer c
where
  /-- The number without a fraction and an exponent. -/
  integer (c : Cursor) : Except Stop (Json × Cursor.Onward c) := do
    let n := Text.decimal whole
    if negative then
      if n = 0 ∨ !Word.fitsSigned 64 (-n) then
        let value ← realOf limits true n 0 c
        pure (value, ⟨c, Nat.le_refl _⟩)
      else pure (.integer (-n), ⟨c, Nat.le_refl _⟩)
    else if Word.fits 64 n then pure (.integer n, ⟨c, Nat.le_refl _⟩)
    else
      let value ← realOf limits false n 0 c
      pure (value, ⟨c, Nat.le_refl _⟩)

/-- A number behind its sign. -/
def number (limits negative : Bool) (c : Cursor) : Except Stop (Json × Cursor.Beyond c) :=
  match h : c.rest with
  | [] => here .unfinishedValue c
  | s :: rest =>
    if s = '0' then
      if rest.head?.any Char.isDigit then .error ⟨.badNumber, c.offset + 2⟩
      else do
        let (value, d) ← numberTail limits negative ['0'] (c.skip 1)
        have hd : d.1.rest.length ≤ (c.skip 1).rest.length := d.2
        have hskip := Cursor.length_skip 1 c
        have hpos : 0 < c.rest.length := by simp [h]
        pure (value, ⟨d.1, by omega⟩)
    else if hs : s.isDigit then do
      let (value, d) ← numberTail limits negative (c.rest.takeWhile Char.isDigit)
        (c.skipWhile Char.isDigit)
      pure (value, ⟨d.1, Nat.lt_of_le_of_lt d.2 (Cursor.length_skipWhile_lt h hs)⟩)
    else .error ⟨.badNumber, c.offset + 1⟩

/-- The letters of a word that must follow. -/
def word : (letters : List Char) → (c : Cursor) → Except Stop (Cursor.Onward c)
  | [], c => .ok ⟨c, Nat.le_refl _⟩
  | w :: letters, c =>
    match h : c.rest with
    | [] => here .unfinishedValue c
    | ch :: rest =>
      if ch = w then do
        let d ← word letters ⟨rest, c.offset + 1⟩
        have hd : d.1.rest.length ≤ rest.length := d.2
        pure ⟨d.1, by rw [h, List.length_cons]; omega⟩
      else .error ⟨.expectedWord, c.offset + 1⟩

mutual

/-- One value. `depth` values may still be nested in each other; without `limits` any number of
them, numbers may have any size, and a text with half of a surrogate pair is read as `null`, unless
it is a name. -/
def value (limits : Bool) (depth : Nat) (c : Cursor) : Except Stop (Json × Cursor.Beyond c) :=
  let start := skipSpace c
  have hs : start.rest.length ≤ c.rest.length := Cursor.length_skipWhile_le _ c
  match h : start.rest with
  | [] => ahead .unfinishedValue start
  | ch :: rest =>
    have hlen : rest.length < c.rest.length := by simp only [h, List.length_cons] at hs; omega
    let next : Cursor := ⟨rest, start.offset + 1⟩
    if ch = 'n' then do
      let d ← word "ull".toList next
      pure (.null, ⟨d.1, by have := d.2; simp only [next] at this; omega⟩)
    else if ch = 't' then do
      let d ← word "rue".toList next
      pure (.bool true, ⟨d.1, by have := d.2; simp only [next] at this; omega⟩)
    else if ch = 'f' then do
      let d ← word "alse".toList next
      pure (.bool false, ⟨d.1, by have := d.2; simp only [next] at this; omega⟩)
    else if ch = '-' then do
      let (v, d) ← number limits true next
      pure (v, ⟨d.1, by have := d.2; simp only [next] at this; omega⟩)
    else if ch.isDigit then do
      let (v, d) ← number limits false start
      pure (v, ⟨d.1, Nat.lt_of_lt_of_le d.2 hs⟩)
    else if ch = '"' then do
      let (s, d) ← textRest limits (some []) next
      pure ((s.map fun s => .text (String.ofList s)).getD .null, ⟨d.1, by have := d.2; simp only [next] at this; omega⟩)
    else if ch = '[' then
      if limits && depth ≤ 1 then ahead .tooDeep start
      else do
        let (items, d) ← items limits (depth - 1) true next
        pure (.list items, ⟨d.1, by have := d.2; simp only [next] at this; omega⟩)
    else if ch = '\x7b' then
      if limits && depth ≤ 1 then ahead .tooDeep start
      else do
        let (fields, d) ← fields limits (depth - 1) true next
        pure (.record fields, ⟨d.1, by have := d.2; simp only [next] at this; omega⟩)
    else ahead .expectedValue start
termination_by 2 * c.rest.length
decreasing_by all_goals omega

/-- The items of a list behind its bracket or behind an item. -/
def items (limits : Bool) (depth : Nat) (first : Bool) (c : Cursor) :
    Except Stop (List Json × Cursor.Beyond c) :=
  let start := skipSpace c
  have hs : start.rest.length ≤ c.rest.length := Cursor.length_skipWhile_le _ c
  match h : start.rest with
  | [] => ahead .unfinishedList start
  | ch :: rest =>
    have hlen : rest.length < c.rest.length := by simp only [h, List.length_cons] at hs; omega
    if ch = ']' then .ok ([], ⟨⟨rest, start.offset + 1⟩, hlen⟩)
    else if first then do
      let (v, d) ← value limits depth c
      have hd : d.1.rest.length < c.rest.length := d.2
      let (vs, e) ← items limits depth false d.1
      pure (v :: vs, ⟨e.1, Nat.lt_trans e.2 d.2⟩)
    else if ch = ',' then
      let next := skipSpace ⟨rest, start.offset + 1⟩
      have hn : (skipSpace ⟨rest, (skipSpace c).offset + 1⟩).rest.length ≤ rest.length :=
        Cursor.length_skipWhile_le isSpace ⟨rest, start.offset + 1⟩
      have hnext : next.rest.length ≤ rest.length := hn
      if next.rest.head? = some ']' then ahead .trailingComma next
      else do
        let (v, d) ← value limits depth next
        have hd : d.1.rest.length < c.rest.length := by have := d.2; omega
        let (vs, e) ← items limits depth false d.1
        pure (v :: vs, ⟨e.1, Nat.lt_trans e.2 hd⟩)
    else ahead .expectedCommaOrBracket start
termination_by 2 * c.rest.length + 1
decreasing_by all_goals omega

/-- The fields of an object behind its brace or behind a field. -/
def fields (limits : Bool) (depth : Nat) (first : Bool) (c : Cursor) :
    Except Stop (List (String × Json) × Cursor.Beyond c) :=
  let start := skipSpace c
  have hs : start.rest.length ≤ c.rest.length := Cursor.length_skipWhile_le _ c
  match h : start.rest with
  | [] => ahead .unfinishedRecord start
  | ch :: rest =>
    have hlen : rest.length < c.rest.length := by simp only [h, List.length_cons] at hs; omega
    if ch = '\x7d' then .ok ([], ⟨⟨rest, start.offset + 1⟩, hlen⟩)
    else if first then
      if ch = '"' then do
        let (field, d) ← fieldRest limits depth ⟨rest, start.offset + 1⟩
        have hd : d.1.rest.length < c.rest.length := Nat.lt_trans d.2 hlen
        let (fs, e) ← fields limits depth false d.1
        pure (field :: fs, ⟨e.1, Nat.lt_trans e.2 hd⟩)
      else ahead .nameNotQuoted start
    else if ch = ',' then
      let next := skipSpace ⟨rest, start.offset + 1⟩
      have hn : next.rest.length ≤ rest.length :=
        Cursor.length_skipWhile_le isSpace ⟨rest, start.offset + 1⟩
      match hnext : next.rest with
      | [] => ahead .unfinishedValue next
      | q :: rest' =>
        if q = '"' then do
          have hrest : rest'.length < c.rest.length := by
            simp only [hnext, List.length_cons] at hn; omega
          let (field, d) ← fieldRest limits depth ⟨rest', next.offset + 1⟩
          have hd : d.1.rest.length < c.rest.length := Nat.lt_trans d.2 hrest
          let (fs, e) ← fields limits depth false d.1
          pure (field :: fs, ⟨e.1, Nat.lt_trans e.2 hd⟩)
        else if q = '\x7d' then ahead .trailingComma next
        else ahead .nameNotQuoted next
    else ahead .expectedCommaOrBrace start
termination_by 2 * c.rest.length
decreasing_by all_goals omega

/-- A field behind the quotation mark that opens its name. -/
def fieldRest (limits : Bool) (depth : Nat) (c : Cursor) :
    Except Stop ((String × Json) × Cursor.Beyond c) := do
  let (name, d) ← textRest true (some []) c
  let start := skipSpace d.1
  have hs : start.rest.length ≤ d.1.rest.length := Cursor.length_skipWhile_le _ d.1
  match h : start.rest with
  | [] => ahead .unfinishedRecord start
  | ch :: rest =>
    have hlen : rest.length < c.rest.length := by
      have := d.2; simp only [h, List.length_cons] at hs; omega
    if ch = ':' then do
      let (v, e) ← value limits depth ⟨rest, start.offset + 1⟩
      pure ((String.ofList (name.getD []), v), ⟨e.1, by have := e.2; simp only at this; omega⟩)
    else ahead .expectedColon start
termination_by 2 * c.rest.length
decreasing_by all_goals omega
end

/-- Read a whole text as one value. -/
def read (limits : Bool) (source : List Char) : Except Stop Json := do
  let (v, d) ← value limits 128 (.start source)
  let stop := skipSpace d.1
  if stop.rest.isEmpty then pure v else ahead .trailingCharacters stop

/-- The value that a text holds. -/
def parse (source : String) : Except Error Json :=
  (read true source.toList).mapError (Stop.toError source.toList)

end LivePreview.Json
