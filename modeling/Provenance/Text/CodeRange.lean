/-! # Ranges of code points

  A property of characters is given by the ranges of code points that have it,
  in increasing order.
-/

namespace Provenance.Text

/-- Whether a code point lies in one of the ranges, which are in order. -/
def inRanges (n : Nat) : List (Nat × Nat) → Bool
  | [] => false
  | (first, last) :: rest => if n < first then false else n ≤ last || inRanges n rest

end Provenance.Text
