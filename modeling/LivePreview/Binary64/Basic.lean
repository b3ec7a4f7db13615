/-!
Binary floating point with 64 bits, computed exactly. A finite number is a whole number of units of
2⁻¹⁰⁷⁴, the smallest positive number of the format, so every operation is one exact computation on
natural numbers followed by one rounding to the nearest representable number, ties to even.
-/

namespace LivePreview

/-- A number of the format: not a number, an infinity, or a count of units with a sign. -/
inductive Binary64 where
  | nan
  | infinite (negative : Bool)
  | finite (negative : Bool) (units : Nat)
deriving DecidableEq, Repr

namespace Binary64

/-- The number of units in one. -/
def unitsPerOne : Nat := Nat.pow 2 1074

/-- The least count of units that is too large for the format. -/
def unitLimit : Nat := Nat.pow 2 2098

/-- The distance between neighbouring numbers of the format at a count of units. -/
def spacing (units : Nat) : Nat := Nat.pow 2 (units.log2 - 52)

/-- A quotient rounded to the nearest natural number, a tie to the even one. -/
def roundDiv (num den : Nat) : Nat :=
  let quotient := num / den
  let double := 2 * (num % den)
  if double < den then quotient
  else if den < double then quotient + 1
  else if quotient % 2 = 0 then quotient else quotient + 1

/-- The representable count of units nearest to a quotient. -/
def roundUnits (num den : Nat) : Nat :=
  let step := spacing (num / den)
  roundDiv num (den * step) * step

/-- The number nearest to a quotient of units. -/
def ofUnits (negative : Bool) (num den : Nat) : Binary64 :=
  let units := roundUnits num den
  if units < unitLimit then finite negative units else infinite negative

/-- The number nearest to a natural number. -/
def ofNat (n : Nat) : Binary64 := ofUnits false (n * unitsPerOne) 1

/-- The number nearest to an integer. -/
def ofInt (n : Int) : Binary64 := ofUnits (n < 0) (n.natAbs * unitsPerOne) 1

/-- The number nearest to a decimal `digits · 10 ^ exponent` with the given sign. Decimals far outside
the format are told by their exponent alone. -/
def ofDecimal (negative : Bool) (digits : Nat) (exponent : Int) : Binary64 :=
  if digits = 0 then finite negative 0
  else if 400 < exponent then infinite negative
  else if exponent + digits.log2 < -400 then finite negative 0
  else if 0 ≤ exponent then ofUnits negative (digits * Nat.pow 10 exponent.toNat * unitsPerOne) 1
  else ofUnits negative (digits * unitsPerOne) (Nat.pow 10 (-exponent).toNat)

/-- Zero. -/
def zero : Binary64 := finite false 0

/-- One. -/
def one : Binary64 := ofNat 1

/-- The sign is set; a zero can have one too. -/
def isNegative : Binary64 → Bool
  | nan => false
  | infinite negative => negative
  | finite negative _ => negative

/-- Neither an infinity nor not a number. -/
def isFinite : Binary64 → Bool
  | finite _ _ => true
  | _ => false

/-- The number with the opposite sign. -/
def neg : Binary64 → Binary64
  | nan => nan
  | infinite negative => infinite (!negative)
  | finite negative units => finite (!negative) units

/-- The value in units of a finite number. -/
def signedUnits (negative : Bool) (units : Nat) : Int := if negative then -units else units

/-- The sum, rounded once. Opposite numbers cancel to a positive zero. -/
def add : Binary64 → Binary64 → Binary64
  | nan, _ => nan
  | _, nan => nan
  | infinite a, infinite b => if a = b then infinite a else nan
  | infinite a, finite _ _ => infinite a
  | finite _ _, infinite b => infinite b
  | finite a m, finite b n =>
    if a = b then ofUnits a (m + n) 1
    else
      let sum := signedUnits a m + signedUnits b n
      ofUnits (sum < 0) sum.natAbs 1

/-- The difference, rounded once. -/
def sub (x y : Binary64) : Binary64 := add x y.neg

/-- The product, rounded once. Zero times an infinity is not a number. -/
def mul : Binary64 → Binary64 → Binary64
  | nan, _ => nan
  | _, nan => nan
  | infinite a, infinite b => infinite (a != b)
  | infinite a, finite b n => if n = 0 then nan else infinite (a != b)
  | finite a m, infinite b => if m = 0 then nan else infinite (a != b)
  | finite a m, finite b n => ofUnits (a != b) (m * n) unitsPerOne

/-- The first number is less than the second; nothing is less or greater than what is no number. -/
def lt : Binary64 → Binary64 → Bool
  | nan, _ => false
  | _, nan => false
  | infinite a, infinite b => a && !b
  | infinite a, finite _ _ => a
  | finite _ _, infinite b => !b
  | finite a m, finite b n => signedUnits a m < signedUnits b n

/-- The first number is at most the second. -/
def le : Binary64 → Binary64 → Bool
  | nan, _ => false
  | _, nan => false
  | infinite a, infinite b => a || !b
  | infinite a, finite _ _ => a
  | finite _ _, infinite b => !b
  | finite a m, finite b n => signedUnits a m ≤ signedUnits b n

/-- The numbers compare equal: a negative zero equals a positive one. -/
def eq (x y : Binary64) : Bool := le x y && le y x

/-- The number pulled into an interval; what is no number stays so. -/
def clamp (x low high : Binary64) : Binary64 :=
  if lt x low then low else if lt high x then high else x

/-- The number, or zero if it is less than zero or no number. -/
def orZero (x : Binary64) : Binary64 := if lt zero x then x else zero

/-- The nearest natural number, halves upwards, capped at `most`. Negative numbers and what is no
number give zero. -/
def roundToNat (x : Binary64) (most : Nat) : Nat :=
  match x with
  | nan => 0
  | infinite negative => if negative then 0 else most
  | finite negative units =>
    if negative then 0 else min ((2 * units + unitsPerOne) / (2 * unitsPerOne)) most

/-- The place of a number in the total order in which negative numbers come before positive ones,
zeros included, and what is no number comes last. -/
def rank : Binary64 → Int
  | nan => unitLimit + 2
  | infinite negative => if negative then -unitLimit - 1 else unitLimit + 1
  | finite negative units => if negative then -units - 1 else units

end Binary64

end LivePreview
