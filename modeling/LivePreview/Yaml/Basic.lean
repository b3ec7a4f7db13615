import LivePreview.Document.Basic
import LivePreview.Text.Digit

/-!
YAML values, and YAML as a format of documents. A scalar is kept as its text; what it stands for
depends on what is asked of it, and only a plain scalar stands for anything but a text.
-/

namespace LivePreview

/-- A YAML value. -/
inductive Yaml where
  /-- A scalar; a plain one stands for what its text looks like. -/
  | scalar (isPlain : Bool) (s : String)
  | list (items : List Yaml)
  | record (entries : List (Yaml × Yaml))
  /-- A value that contains itself. -/
  | unending
deriving Inhabited

namespace Yaml

/-- No value at all. -/
def blank : Yaml := scalar true ""

/-- The text of a plain scalar. -/
def plain? : Yaml → Option String
  | scalar true s => some s
  | _ => none

/-- The text of a scalar. -/
def text? : Yaml → Option String
  | scalar _ s => some s
  | _ => none

/-- The number that a word of digits stands for. -/
def digits? (base : Nat) (word : List Char) : Option Nat :=
  if word = [] then none else Text.number? base word

/-- A number without a sign: a decimal one without zeros in front, or one of another base. -/
def unsigned? (word : List Char) : Option Nat :=
  match word with
  | '0' :: 'x' :: rest => digits? 16 rest
  | '0' :: 'o' :: rest => digits? 8 rest
  | '0' :: 'b' :: rest => digits? 2 rest
  | '0' :: _ :: _ => none
  | word => digits? 10 word

/-- A number with or without a plus sign. -/
def natural? (word : List Char) : Option Nat :=
  match word with
  | '+' :: rest => unsigned? rest
  | word => unsigned? word

/-- A number with or without a sign. -/
def integer? (word : List Char) : Option Int :=
  match word with
  | '-' :: rest => (unsigned? rest).map fun n => -n
  | word => (natural? word).map Int.ofNat

/-- The exponent of a number; a number without one has exponent zero. -/
def exponent? : List Char → Option Int
  | [] => some 0
  | e :: rest =>
    if e = 'e' ∨ e = 'E' then
      match rest with
      | '-' :: digits => (digits? 10 digits).map fun n => -n
      | '+' :: digits => (digits? 10 digits).map Int.ofNat
      | digits => (digits? 10 digits).map Int.ofNat
    else none

/-- A decimal number without a sign; on one side of the point there may be no digits. -/
def decimal? (negative : Bool) (word : List Char) : Option Binary64 := do
  let whole := word.takeWhile Char.isDigit
  let rest := word.dropWhile Char.isDigit
  let (fraction, rest) := match rest with
    | '.' :: later => (later.takeWhile Char.isDigit, later.dropWhile Char.isDigit)
    | _ => ([], rest)
  let digits ← digits? 10 (whole ++ fraction)
  let x := Binary64.ofDecimal negative digits ((← exponent? rest) - fraction.length)
  if x.isFinite then pure x else none

/-- The spellings of an infinity. -/
def infinityNames : List String := [".inf", ".Inf", ".INF"]

/-- A number with or without a sign, an infinity, or what is no number. -/
def real? (s : String) : Option Binary64 :=
  if s ∈ [".nan", ".NaN", ".NAN"] then some .nan
  else
    match s.toList with
    | '-' :: rest =>
      if String.ofList rest ∈ infinityNames then some (.infinite true) else decimal? true rest
    | '+' :: rest =>
      if String.ofList rest ∈ infinityNames then some (.infinite false) else decimal? false rest
    | word => if s ∈ infinityNames then some (.infinite false) else decimal? false word

/-- A truth value. -/
def bool? (s : String) : Option Bool :=
  if s ∈ ["true", "True", "TRUE"] then some true
  else if s ∈ ["false", "False", "FALSE"] then some false
  else none

/-- The text stands for nothing. -/
def isNull (s : String) : Bool := s ∈ ["", "null", "Null", "NULL", "~"]

/-- The entries of a record; a blank is a record without entries. Every key is a text. -/
def fields? : Yaml → Option (List (String × Yaml))
  | scalar true "" => some []
  | record entries => entries.mapM fun entry => (text? entry.1).map fun name => (name, entry.2)
  | _ => none

end Yaml

instance : Document Yaml where
  isNull d := d.plain?.any Yaml.isNull
  bool? d := d.plain?.bind Yaml.bool?
  integer? d := d.plain?.bind fun s => Yaml.integer? s.toList
  natural? d := d.plain?.bind fun s => Yaml.natural? s.toList
  real? d := d.plain?.bind Yaml.real?
  text? := Yaml.text?
  fields? := Yaml.fields?
  parts? _ := none
  toleratesSurplus := false

end LivePreview
