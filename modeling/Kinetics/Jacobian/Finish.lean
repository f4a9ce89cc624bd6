import Kinetics.Jacobian.Energy
import Kinetics.Jacobian.Loop
/-!
# Finishing the species columns

After the reaction loop each entry lacks the term from the change of density, and the temperature
row is still to be written from the finished entries. Both are done species by species.
-/

namespace Kinetics.Jacobian

open Code

variable {α : Type} [Arithmetic α]

def densityTerm (k : Nat) (weight other last : α) : Except Fault (Expr α) := do
  let factor := (← Arithmetic.div weight other)
    * (Arithmetic.unit - (← Arithmetic.div other last))
  return .group (.cell "spec_rates" k * .var "mw_avg" * .full factor * .var "rho_inv")

def energyShare (n k j : Nat) (weight : α) (written : Bool) : Expr α :=
  let capacity := .group (.var "j_temp" * .group (.cell "cp" j - .cell "cp" (n - 1 : Nat))
    * .cell "spec_rates" k * .sci 8 weight)
  .group (.cell "h" k * .group (if written then .var "working_temp" * compositionEntry n k j - capacity
    else -capacity))

/-- The statements for one entry: its completion if the reaction loop wrote it, and its share in
the temperature row. The share of a species without entry and without production is left out. -/
def entryFinish (species : List (Species α)) (produced : List Bool) (written : Bool) (k j : Nat)
    (weight other : α) : Except Fault (List (Step α)) := do
  let n := species.length
  let complete ←
    if written then do
      pure [.assign 2 (compositionEntry n k j) .add
        (← densityTerm k weight other (← lastEntry species).weight)]
    else pure []
  let kept ← if written then pure true else entryAt produced k
  if kept then
    let share := energyShare n k j weight written
    let target := .cell "jac" (n * (j + 1) : Nat)
    return complete ++ [if k = 0 then .assign 2 target .set (-share)
      else .assign 2 target .subtract share]
  else return complete

def speciesFinish (species : List (Species α)) (produced : List Bool) (progress : Progress)
    (k : Nat) (weight : α) : Except Fault (List (Step α)) := do
  let rows ← species.dropLast.zipIdx.mapM fun (other, j) =>
    entryFinish species produced (progress.composition.contains k) k j weight other.weight
  return rows.flatten

def finishRun (species : List (Species α)) (produced : List Bool) (progress : Progress)
    (members : List (Species α × Nat)) : Except Fault (List (Step α)) := do
  return (← members.mapM fun (s, k) => speciesFinish species produced progress k s.weight).flatten

/-- Which entries of the matrix are written at all: all of the temperature row, and those of the
species that reactions change. -/
def writtenEntries (n : Nat) (progress : Progress) : List Bool :=
  (List.range (n * n)).map fun x =>
    let row := x % n
    let column := x / n
    row == 0 || (if column = 0 then progress.temperature.contains (row - 1)
      else progress.composition.contains (row - 1))

def firstAlike (species : List (Species α)) (i : Nat) (s : Species α) : Nat :=
  match species.zipIdx.find? fun (t, j) => j == i || t.resembles s with
  | some (_, j) => j
  | none => i

def averageCapacity (species : List (Species α)) : Expr α :=
  let n := species.length
  let terms := species.dropLast.zipIdx.map fun (s, i) =>
    let p : Nat := firstAlike species i s
    .group (.cell "y" (p + 1 : Nat) * .cell "cp" p)
  let last := .group (.var "y_N" * .cell "cp" (n - 1 : Int))
  match terms with
  | [] => last
  | terms => sumOf { breakAfter := .past 5 } terms + last

end Kinetics.Jacobian
