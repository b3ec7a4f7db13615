/-!
Digits and the numbers and characters that they tell.
-/

namespace LivePreview.Text

/-- The value of a digit in a base of sixteen at most. -/
def digitValue? (base : Nat) (c : Char) : Option Nat :=
  let value := if c.isDigit then c.toNat - 48
    else if 'a' ≤ c ∧ c ≤ 'f' then c.toNat - 87
    else if 'A' ≤ c ∧ c ≤ 'F' then c.toNat - 55
    else base
  if value < base then some value else none

/-- The number with the given digits, the first of which counts most. -/
def numberOf (base : Nat) (digits : List Nat) : Nat := digits.foldl (fun n d => base * n + d) 0

/-- The number that is written in a base; no digits at all are zero. -/
def number? (base : Nat) (digits : List Char) : Option Nat :=
  (digits.mapM (digitValue? base)).map (numberOf base)

/-- The number that decimal digits are. -/
def decimal (digits : List Char) : Nat :=
  digits.foldl (fun n d => 10 * n + (d.toNat - '0'.toNat)) 0

/-- The character with a code, if there is one. -/
def charOfCode? (code : Nat) : Option Char :=
  if code.isValidChar then some (Char.ofNat code) else none

/-- A character by its code in so many hexadecimal digits, and what follows them. -/
def codeChar? (count : Nat) (source : List Char) : Option (Char × List Char) :=
  let digits := source.take count
  if digits.length = count then
    ((number? 16 digits).bind charOfCode?).map fun c => (c, source.drop count)
  else none

end LivePreview.Text
