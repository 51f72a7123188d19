/-!
Classes of characters by their boundaries: in the order of code points, a class starts at the first
boundary, ends before the second, starts again at the third, and so on.
-/

namespace FeatureGuard.Text

/-- Whether a character belongs to the class with the given boundaries. -/
def isWithin (boundaries : List Nat) (c : Char) : Bool :=
  boundaries.countP (· ≤ c.toNat) % 2 = 1

end FeatureGuard.Text
