import Kinetics.Code.Step
import Kinetics.Mechanism.Reaction
/-!
# The temperature row of the Jacobian

The derivative of the heat capacity by temperature, and the entry that depends on it.
-/

namespace Kinetics.Jacobian

open Code

variable {α : Type} [Arithmetic α]

structure MidpointGroup (α : Type) where
  midpoint : α
  members : List Nat
  deriving Inhabited

/-- Adds a position to the group of its midpoint; groups stand in ascending order. -/
def insertByMidpoint (midpoint : α) (s : Nat) : List (MidpointGroup α) → List (MidpointGroup α)
  | [] => [⟨midpoint, [s]⟩]
  | g :: gs =>
    if Arithmetic.eq g.midpoint midpoint then { g with members := g.members ++ [s] } :: gs
    else if Arithmetic.lt midpoint g.midpoint then ⟨midpoint, [s]⟩ :: g :: gs
    else g :: insertByMidpoint midpoint s gs

def midpointGroups (species : List (Species α)) : List (MidpointGroup α) :=
  species.zipIdx.foldl (fun groups (s, i) => insertByMidpoint s.midpoint i groups) []

def massFraction (n s : Nat) : Expr α :=
  if s + 1 = n then .var "y_N" else .cell "y" (s + 1 : Nat)

/-- The temperature derivative of the specific heat capacity of a species, times its mass
fraction. -/
def heatCapacitySlope (n s : Nat) (weight : α) (p : Nasa α) : Except Fault (Expr α) := do
  return .group (massFraction n s * .full (← Arithmetic.div gasConstant weight)
    * .group (.full p.a2 + .T * .group (.full (Arithmetic.tenths 20 * p.a3)
      + .T * .group (.full (Arithmetic.tenths 30 * p.a4)
        + .full (Arithmetic.tenths 40 * p.a5) * .T))))

def heatCapacityItems (species : List (Species α)) : Except Fault (List (Item α)) :=
  (midpointGroups species).zipIdx.mapM fun (g, i) => do
    let form := if i = 0 then Form.set else Form.accumulate
    let steps := fun (range : Species α → Nasa α) => do
      let terms ← g.members.mapM fun s => do
        let sp ← entryAt species s
        heatCapacitySlope species.length s sp.weight (range sp)
      return [Step.assign 4 (.var "working_temp") form
        (sumOf { breakBefore := .always 4 false, before := 0 } terms)]
    return .split 2 (.atMost "T" .shortest g.midpoint) (← steps (·.low)) (← steps (·.high))

/-- The share of one species in the temperature derivative of the temperature rate. -/
def energyTerm (n s : Nat) (weight : α) (lastTouched : Bool) : Expr α :=
  let enthalpy := .cell "h" s
  let term := .cell "spec_rates" s * .sci 8 weight
    * .group (-.var "working_temp" * enthalpy / .var "cp_avg" + .cell "cp" s)
  if s + 1 < n then term + .firstColumn "jac" (s + 1 : Nat) * enthalpy * .var "rho"
  else if lastTouched then term + .var "J_nplusone" * enthalpy * .var "rho"
  else term

def energyCompletion (species : List (Species α)) (lastTouched : Bool) : List (Step α) :=
  let terms := species.zipIdx.map fun (s, i) => energyTerm species.length i s.weight lastTouched
  [.remark "Complete dT wrt T calculations",
    .set (.firstColumn "jac" 0)
      (-.group (sumOf { breakBefore := .always 4 true, before := 0 } terms)
        / .group (.var "rho" * .var "cp_avg"))]

end Kinetics.Jacobian
