/-!
Sets of code points written as ascending lists of closed intervals, the form in which the
character classes of this library are tabulated.
-/

namespace LivePreview.Text

/-- Closed intervals of code points. -/
abbrev CodePointRanges := List (Nat × Nat)

/-- The character lies in one of the intervals. -/
def CodePointRanges.has (ranges : CodePointRanges) (c : Char) : Bool :=
  ranges.any fun r => r.1 ≤ c.toNat && c.toNat ≤ r.2

-- Membership is membership in some interval.
theorem CodePointRanges.has_iff {ranges : CodePointRanges} {c : Char} :
    ranges.has c = true ↔ ∃ r ∈ ranges, r.1 ≤ c.toNat ∧ c.toNat ≤ r.2 := by
  simp [CodePointRanges.has]

end LivePreview.Text
