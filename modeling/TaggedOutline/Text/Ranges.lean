import TaggedOutline.Text

/-!
# Ranges of characters

A class of characters is listed as the ranges of its code points, in ascending order.
-/

namespace TaggedOutline

namespace Text

/-- Whether a code point lies in one of the listed ranges, both ends included. -/
def inRanges (ranges : List (Nat × Nat)) (n : Nat) : Bool :=
  ranges.any fun (first, last) => first ≤ n && n ≤ last

end Text

end TaggedOutline
