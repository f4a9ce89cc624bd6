/-!
# Forms in which emitted code writes a number
-/

namespace Kinetics

inductive NumberFormat where
  /-- Scientific notation with a fixed number of digits after the point. -/
  | scientific (places : Nat)
  /-- The shortest text that reads back; a whole number has no point. -/
  | shortest
  /-- At most so many significant digits; only for numbers that carry a point. -/
  | bounded (digits : Nat)
  deriving Repr, DecidableEq, Inhabited

end Kinetics
