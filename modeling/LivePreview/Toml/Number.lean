import LivePreview.Text.Digit
import LivePreview.Text.Reader
import LivePreview.Toml.Basic
import LivePreview.Word

/-!
TOML numbers and moments: words whose form tells what they are. Digits may be set apart by single
underscores.
-/

namespace LivePreview.Toml

open Text (Reader digitValue? numberOf)

/-- Digits of a base behind a first one; an underscore stands between digits only. -/
def moreDigits (base : Nat) : List Char → List Nat × List Char
  | [] => ([], [])
  | ['_'] => ([], ['_'])
  | '_' :: c :: rest =>
    match digitValue? base c with
    | some d =>
      let (ds, last) := moreDigits base rest
      (d :: ds, last)
    | none => ([], '_' :: c :: rest)
  | c :: rest =>
    match digitValue? base c with
    | some d =>
      let (ds, last) := moreDigits base rest
      (d :: ds, last)
    | none => ([], c :: rest)

/-- Digits of a base, at least one. -/
def digits (base : Nat) : Reader (List Nat)
  | [] => none
  | c :: rest => (digitValue? base c).map fun d =>
      let (ds, last) := moreDigits base rest
      (d :: ds, last)

/-- The sign at the front, and what follows it. -/
def sign : List Char → Bool × List Char
  | '-' :: rest => (true, rest)
  | '+' :: rest => (false, rest)
  | rest => (false, rest)

/-- The whole part of a number: no zero in front of other digits. -/
def whole : Reader (List Nat)
  | '0' :: rest => some ([0], rest)
  | rest => digits 10 rest

/-- An integer of 64 bits. -/
def integer? (negative : Bool) (n : Nat) : Option Toml :=
  let value : Int := if negative then -n else n
  if Word.fitsSigned 64 value then some (.integer value) else none

/-- The exponent of a number; a number without one has exponent zero. -/
def exponent? : List Char → Option Int
  | [] => some 0
  | e :: rest =>
    if e = 'e' ∨ e = 'E' then
      let (negative, rest) := sign rest
      match digits 10 rest with
      | some (ds, []) =>
        let n : Int := numberOf 10 ds
        some (if negative then -n else n)
      | _ => none
    else none

/-- A number with a fraction or an exponent. One that is too large has no value. -/
def real? (negative : Bool) (digits : List Nat) (exponent : Int) : Option Toml :=
  let x := Binary64.ofDecimal negative (numberOf 10 digits) exponent
  if x = .infinite false then none else some (.real x)

/-- A decimal number. -/
def decimal? (word : List Char) : Option Toml := do
  let (negative, rest) := sign word
  let (ds, rest) ← whole rest
  match rest with
  | [] => integer? negative (numberOf 10 ds)
  | '.' :: rest =>
    let (fraction, rest) ← digits 10 rest
    real? negative (ds ++ fraction) ((← exponent? rest) - fraction.length)
  | rest => real? negative ds (← exponent? rest)

/-- An integer of another base than ten. -/
def based? : List Char → Option Toml
  | '0' :: mark :: rest => do
    let base ← [('x', 16), ('o', 8), ('b', 2)].lookup mark
    match digits base rest with
    | some (ds, []) => integer? false (numberOf base ds)
    | _ => none
  | _ => none

/-- What is not a finite number. -/
def notFinite? (word : List Char) : Option Toml :=
  let (negative, rest) := sign word
  if rest = "inf".toList then some (.real (.infinite negative))
  else if rest = "nan".toList then some (.real .nan)
  else none

/-- A number of exactly so many digits, within bounds. -/
def fixed (count low high : Nat) (text : List Char) : Option (Nat × List Char) :=
  let front := text.take count
  let n := Text.decimal front
  if front.length = count ∧ front.all Char.isDigit ∧ low ≤ n ∧ n ≤ high then
    some (n, text.drop count)
  else none

/-- The number of days of a month. -/
def daysOf (year month : Nat) : Nat :=
  if month = 2 then if year % 4 = 0 ∧ (year % 100 ≠ 0 ∨ year % 400 = 0) then 29 else 28
  else if month ∈ [4, 6, 9, 11] then 30 else 31

/-- A date. -/
def date : Reader Unit := fun text => do
  let (year, rest) ← fixed 4 0 9999 text
  let (_, rest) ← Reader.word ['-'] rest
  let (month, rest) ← fixed 2 1 12 rest
  let (_, rest) ← Reader.word ['-'] rest
  let (_, rest) ← fixed 2 1 (daysOf year month) rest
  pure ((), rest)

/-- A time of the day. -/
def time : Reader Unit := fun text => do
  let (_, rest) ← fixed 2 0 23 text
  let (_, rest) ← Reader.word [':'] rest
  let (_, rest) ← fixed 2 0 59 rest
  let (_, rest) ← Reader.word [':'] rest
  let (_, rest) ← fixed 2 0 60 rest
  match rest with
  | '.' :: rest =>
    if rest.head?.any Char.isDigit then pure ((), rest.dropWhile Char.isDigit) else none
  | rest => pure ((), rest)

/-- How far a time is from that of the zero meridian, if that is told. -/
def offset : Reader Unit
  | [] => some ((), [])
  | 'Z' :: rest | 'z' :: rest => some ((), rest)
  | mark :: clock =>
    if mark = '+' ∨ mark = '-' then do
      let (_, rest) ← fixed 2 0 23 clock
      let (_, rest) ← Reader.word [':'] rest
      let (_, rest) ← fixed 2 0 59 rest
      pure ((), rest)
    else some ((), mark :: clock)

/-- A whole word is a moment. -/
def isMoment (word : List Char) : Bool :=
  match date word with
  | some (_, []) => true
  | some (_, mark :: rest) =>
    (mark == 'T' || mark == 't' || mark == ' ') &&
      ((time rest).bind fun found => offset found.2).any (·.2.isEmpty)
  | none => (time word).any (·.2.isEmpty)

/-- The value that a whole word stands for. -/
def ofWord? (word : List Char) : Option Toml :=
  if word = "true".toList then some (.bool true)
  else if word = "false".toList then some (.bool false)
  else if isMoment word then some (.moment (String.ofList word))
  else (notFinite? word).or ((based? word).or (decimal? word))

/-- A character of a word. -/
def isWordChar (c : Char) : Bool :=
  c.isAlphanum || c == '_' || c == '-' || c == '+' || c == '.' || c == ':'

/-- A value that is written as a word; between a date and a time there may be a blank. -/
def wordValue : Reader Toml := fun text => do
  let (front, rest) := Reader.span isWordChar text
  let both := match rest with
    | ' ' :: later => front ++ ' ' :: later.takeWhile isWordChar
    | _ => front
  if (date front).any (·.2.isEmpty) ∧ isMoment both then
    pure (.moment (String.ofList both), text.drop both.length)
  else pure (← ofWord? front, rest)

end LivePreview.Toml
