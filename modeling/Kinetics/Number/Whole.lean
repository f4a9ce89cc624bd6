import Kinetics.Number.Numeral
import Kinetics.Scalar
/-!
# Texts that denote whole numbers
-/

namespace Kinetics.Number

def isWholeText (s : List Char) : Bool :=
  match readWhole s, readReal s with
  | .ok n, .ok x => Scalar.compareValue (.int n) (.float x) == some .eq
  | _, _ => false

end Kinetics.Number
