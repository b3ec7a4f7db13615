import LivePreview.Binary64.Basic

/-!
Decimal text of binary floating point: the fewest digits that read back as the same number, and of
those the nearest. For each count of digits the two neighbours of the number on that decimal grid
are tested against the interval of values that round to it.
-/

namespace LivePreview.Binary64

/-- A positive decimal: a whole number of digits scaled by a power of ten. -/
structure Decimal where
  digits : Nat
  exponent : Int
deriving DecidableEq, Repr

/-- `digits · 10 ^ exponent` units-per-one, as a fraction. -/
def Decimal.fraction (d : Decimal) : Nat × Nat :=
  if 0 ≤ d.exponent then (d.digits * Nat.pow 10 d.exponent.toNat * unitsPerOne, 1)
  else (d.digits * unitsPerOne, Nat.pow 10 (-d.exponent).toNat)

/-- The values, in quarter units, that round to a count of units: the two ends, and whether the ends
belong to them. -/
def roundingInterval (units : Nat) : Nat × Nat × Bool :=
  let step := spacing units
  let below := if units = Nat.pow 2 52 * step ∧ 1 < step then step / 2 else step
  (4 * units - 2 * below, 4 * units + 2 * step, (units / step) % 2 = 0)

/-- The decimal rounds to the count of units. -/
def Decimal.readsBack (d : Decimal) (units : Nat) : Bool :=
  let (num, den) := d.fraction
  let (low, high, closed) := roundingInterval units
  if closed then low * den ≤ 4 * num && 4 * num ≤ high * den
  else low * den < 4 * num && 4 * num < high * den

/-- The least power of ten, up to a bound, that lifts a count of units to one at least. -/
def liftingPower (units : Nat) : (fuel power : Nat) → Nat
  | 0, power => power
  | fuel + 1, power =>
    if unitsPerOne ≤ units * Nat.pow 10 power then power else liftingPower units fuel (power + 1)

/-- The number of digits before the point; for a number below one, one less the number of zeros
after the point. -/
def magnitude (units : Nat) : Int :=
  if unitsPerOne ≤ units then (Nat.toDigits 10 (units / unitsPerOne)).length
  else 1 - (liftingPower units 330 0 : Int)

/-- The greatest decimal with the exponent that is not above the number. -/
def floorAt (units : Nat) (exponent : Int) : Decimal :=
  if 0 ≤ exponent then ⟨units / (unitsPerOne * Nat.pow 10 exponent.toNat), exponent⟩
  else ⟨units * Nat.pow 10 (-exponent).toNat / unitsPerOne, exponent⟩

/-- The decimal is nearer to the number than its successor on the grid, or as near and even. -/
def Decimal.isNearer (d : Decimal) (units : Nat) : Bool :=
  let (num, den) := d.fraction
  let (num', _) := { d with digits := d.digits + 1 : Decimal }.fraction
  let below := units * den - num
  let above := num' - units * den
  below < above || (below == above && d.digits % 2 == 0)

/-- A decimal with the given exponent that reads back, the nearer one if there are two. -/
def candidateAt? (units : Nat) (exponent : Int) : Option Decimal :=
  let low := floorAt units exponent
  let high : Decimal := { low with digits := low.digits + 1 }
  match low.readsBack units, high.readsBack units with
  | true, true => some (if low.isNearer units then low else high)
  | true, false => some low
  | false, true => some high
  | false, false => none

/-- The decimal without zeros at the end of its digits. -/
def Decimal.trimZeros : (fuel : Nat) → Decimal → Decimal
  | 0, d => d
  | fuel + 1, d =>
    if d.digits % 10 = 0 ∧ d.digits ≠ 0 then trimZeros fuel ⟨d.digits / 10, d.exponent + 1⟩ else d

/-- The shortest decimal that reads back as a positive count of units. -/
def shortest (units : Nat) : Decimal :=
  let size := magnitude units
  let found := ((List.range 17).map fun k => size - (k + 1 : Nat)).findSome? (candidateAt? units)
  (found.getD (floorAt units (size - 17))).trimZeros 20

/-- The digits of a natural number. -/
def digitsOf (n : Nat) : List Char := Nat.toDigits 10 n

/-- The digits of a decimal written out without an exponent, and whether a point stands in them. -/
def Decimal.positional (d : Decimal) : List Char × Bool :=
  let digits := digitsOf d.digits
  if 0 ≤ d.exponent then (digits ++ List.replicate d.exponent.toNat '0', false)
  else
    let places := (-d.exponent).toNat
    if places < digits.length then
      (digits.take (digits.length - places) ++ '.' :: digits.drop (digits.length - places), true)
    else ("0.".toList ++ List.replicate (places - digits.length) '0' ++ digits, true)

/-- The digits of a decimal with one digit before the point and an exponent. -/
def Decimal.scientific (d : Decimal) : List Char :=
  let digits := digitsOf d.digits
  let exponent : Int := d.exponent + digits.length - 1
  let mantissa := match digits with
    | first :: second :: rest => first :: '.' :: second :: rest
    | short => short
  mantissa ++ 'e' :: (toString exponent).toList

/-- How numbers are written. -/
structure Style where
  /-- Whole numbers end in `.0`. -/
  pointZero : Bool
  /-- The counts of digits before the point that are written without an exponent: more than the
  first and at most the second. -/
  positional : Option (Int × Int)
  notANumber : String
  infinity : String

/-- The text of a number. -/
def render (style : Style) (x : Binary64) : String :=
  let sign (negative : Bool) := if negative then "-" else ""
  match x with
  | nan => style.notANumber
  | infinite negative => sign negative ++ style.infinity
  | finite negative units =>
    if units = 0 then sign negative ++ if style.pointZero then "0.0" else "0"
    else
      let d := shortest units
      let size : Int := d.exponent + (digitsOf d.digits).length
      let isPositional := style.positional.all fun bounds => bounds.1 < size ∧ size ≤ bounds.2
      let body :=
        if isPositional then
          let (text, hasPoint) := d.positional
          if style.pointZero ∧ hasPoint = false then text ++ ".0".toList else text
        else d.scientific
      sign negative ++ String.ofList body

/-- Plain text for people: never an exponent, and no point in whole numbers. -/
def plain (x : Binary64) : String := render ⟨false, none, "NaN", "inf"⟩ x

/-- The number with two places, a tie going to the even neighbour. -/
def twoPlaces (x : Binary64) : String :=
  match x with
  | nan => "NaN"
  | infinite negative => (if negative then "-" else "") ++ "inf"
  | finite negative units =>
    let hundredths := roundDiv (units * 100) unitsPerOne
    let digits := digitsOf (hundredths % 100)
    (if negative then "-" else "") ++ String.ofList (digitsOf (hundredths / 100) ++ '.' ::
      List.replicate (2 - digits.length) '0' ++ digits)

end LivePreview.Binary64
