import Kinetics.Fault
/-!
# Moving a species to the end

Generated code computes the mass fraction of the last species from the others, so the species
order can be changed to put a chosen one at the end. All others keep their order.
-/

namespace Kinetics.Ordering

/-- For each position of the new order, the position in the old one: `last` is taken out and put
at the end. -/
def forwardMap (n last : Nat) : List Nat :=
  (List.range n).filter (· != last) ++ [last]

/-- For each position of the old order, the position in the new one: positions after `last` move
down by one. -/
def backwardMap (n last : Nat) : List Nat :=
  (List.range n).map fun i => if i = last then n - 1 else if last < i then i - 1 else i

/-- Both maps for a species position, which must be one of the `n` positions. A position counted
from the end is recognised as a position but is not listed. -/
def lastSpeciesMaps (n : Nat) (last : Int) : Except Fault (List Nat × List Nat) :=
  if 0 ≤ last then
    if last.toNat < n then .ok (forwardMap n last.toNat, backwardMap n last.toNat)
    else .error .missingEntry
  else if last = -1 ∨ last.natAbs > n then .error .missingEntry
  else .error .notListed

end Kinetics.Ordering
