import LivePreview.Text.Quoted
import LivePreview.Word

/-!
Spans of time, as numbers of nanoseconds, and their text: a number in the largest unit in which it is
at least one, without zeros at the end.
-/

namespace LivePreview.Retry

/-- A span of time in nanoseconds. -/
abbrev Span := Nat

namespace Span

/-- A number of milliseconds as a span. -/
def ofMillis (n : Nat) : Span := n * 1000000

/-- The whole milliseconds of a span. -/
def toMillis (span : Span) : Nat := span / 1000000

/-- The longest span that can be told in 64 bits of nanoseconds. -/
def longest : Span := Word.size 64 - 1

/-- The digits of a fraction with the given number of places, without zeros at the end. -/
def fractionDigits (places fraction : Nat) : List Char :=
  let digits := (Nat.toDigits 10 fraction)
  let padded := List.replicate (places - digits.length) '0' ++ digits
  (padded.reverse.dropWhile (· == '0')).reverse

/-- A span in a unit of `10 ^ places` nanoseconds. -/
def inUnit (places : Nat) (unit : String) (span : Span) : String :=
  let parts := Nat.pow 10 places
  let whole := toString (span / parts)
  match fractionDigits places (span % parts) with
  | [] => whole ++ unit
  | digits => whole ++ "." ++ String.ofList digits ++ unit

/-- The text of a span. -/
def text (span : Span) : String :=
  if 1000000000 ≤ span then inUnit 9 "s" span
  else if 1000000 ≤ span then inUnit 6 "ms" span
  else if 1000 ≤ span then inUnit 3 "µs" span
  else inUnit 0 "ns" span

end Span

end LivePreview.Retry
