/-!
Integers in words of a number of bits.
-/

namespace LivePreview.Word

/-- How many values a word has. -/
def size (bits : Nat) : Nat := Nat.pow 2 bits

/-- A natural number fits in a word. -/
def fits (bits n : Nat) : Bool := n < size bits

/-- An integer fits in a word one bit of which is the sign. -/
def fitsSigned (bits : Nat) (n : Int) : Bool :=
  -(size (bits - 1) : Int) ≤ n ∧ n < (size (bits - 1) : Int)

end LivePreview.Word
