import Kinetics.Arithmetic
/-!
# Affinity of neighbours

Rows of flags say what each item of an order uses: the species of a reaction, or the reactions of
a species. An item fits its place if its neighbours use what it uses and little else, and
neighbours count less the farther they are.
-/

namespace Kinetics.Ordering

abbrev Row := List Bool

def Row.uses (r : Row) : Nat := r.countP id

def Row.affinity (item neighbour : Row) : Except Fault Int :=
  if item.length ≠ neighbour.length then .error .sizeMismatch
  else
    let pairs := item.zip neighbour
    .ok (pairs.countP (fun (x, y) => x && y) - pairs.countP (fun (x, y) => !x && y) : Int)

def neighbourhood (reach count i : Nat) : List Nat :=
  (List.range count).filter fun j => j != i && i ≤ j + reach && j ≤ i + reach

variable {α : Type} [Arithmetic α]

/-- How well an item fits a place: its affinity to each neighbour over their distance. -/
def fit (laid : List Row) (reach count : Nat) (item : Row) (i : Nat) : Except Fault α :=
  (neighbourhood reach count i).foldlM (fun (total : α) j => do
    let affinity ← item.affinity (laid.getD j [])
    let distance : Int := (i : Int) - (j : Int)
    return total + (← Arithmetic.div (Arithmetic.ofInt affinity) (Arithmetic.ofInt distance.natAbs)))
    Arithmetic.zero

def ownFits (laid : List Row) (reach count : Nat) : Except Fault (List α) :=
  (List.range count).mapM fun i => fit laid reach count (laid.getD i []) i

def score (laid : List Row) (reach count : Nat) : Except Fault α := do
  return Arithmetic.sum (← ownFits laid reach count)

def rowsOf (rows : List Row) (order : List Nat) : Except Fault (List Row) :=
  order.mapM fun i =>
    match rows[i]? with
    | some r => .ok r
    | none => .error .missingEntry

end Kinetics.Ordering
