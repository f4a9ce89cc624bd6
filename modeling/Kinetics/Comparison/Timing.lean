import Kinetics.Number.Numeral
import Kinetics.Workspace.Job
/-!
# Timing files

A timing file has a line for each finished run: a number of steps or conditions, a comma and the
time taken. Lines of any other form do not count, and neither does a file that cannot be read.
-/

namespace Kinetics.Comparison

open Workspace

def entries (text : String) : List (List Char × List Char) :=
  (Text.lines text).filterMap fun line =>
    match Text.splitAtChar ',' (Text.strip line) with
    | [a, b] => some (a, b)
    | _ => none

def finishedRuns (text : String) : Nat :=
  ((entries text).filter fun (a, b) =>
    (Number.readWhole a).toOption.isSome && (Number.readReal b).toOption.isSome).length

def finishedSteps (text : String) : List Scalar :=
  (entries text).filterMap fun (a, b) =>
    match Number.readReal a, Number.readReal b with
    | .ok x, .ok _ => some (.float x)
    | _, _ => none

def distinct (steps : List Scalar) : List Scalar :=
  steps.foldl (fun out s => if out.any (Arithmetic.eq · s) then out else out ++ [s]) []

def runsPerStep (steps : List Scalar) (text : String) : List (Scalar × Nat) :=
  (distinct steps).map fun s => (s, ((finishedSteps text).filter (Arithmetic.eq s)).length)

def readIfPossible (path : String) : Job String := do
  let here := (← read).here
  return ((← get).folder.read here path).toOption.getD ""

def runsIn (path : String) : Job Nat := return finishedRuns (← readIfPossible path)

/-- How often each number of steps was run according to a file, which has to be one for the
accelerator. -/
def stepsIn (path : String) (steps : List Scalar) : Job (List (Scalar × Nat)) := do
  if !Text.occurs "cuda".toList path.toList then throw (.misnamed path)
  return runsPerStep steps (← readIfPossible path)

end Kinetics.Comparison
