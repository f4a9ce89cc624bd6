import Kinetics.Code.Step
import Kinetics.Rate.Arrhenius
/-!
# Pressure modifications

Third-body concentrations, the two limits of a falloff rate, and the broadening factors that join
them.
-/

namespace Kinetics.Rate

open Code

variable {α : Type} [Arithmetic α] {σ : Type}

/-- Adds the excess of an efficiency over one, times the concentration of its species. -/
def addEfficiency (concentrations : String) (sum : Expr α) (entry : Nat × α) : Expr α :=
  let (s, efficiency) := entry
  if Arithmetic.eq efficiency Arithmetic.unit then sum
  else if Arithmetic.lt Arithmetic.unit efficiency then
    sum + .plain (efficiency - Arithmetic.unit) * .cell concentrations s
  else if Arithmetic.lt efficiency Arithmetic.unit then
    sum - .plain (Arithmetic.unit - efficiency) * .cell concentrations s
  else sum * .cell concentrations s

/-- The concentration of third bodies: all molecules, corrected by the efficiencies. -/
def thirdBodySum (concentrations : String) (efficiencies : List (Nat × α)) : Expr α :=
  efficiencies.foldl (addEfficiency concentrations) (.var "m")

def lowLimit (r : Reaction σ α) : Except Fault (Expr α) :=
  if r.low.isEmpty then arrhenius r.A r.b r.E else arrheniusOf r.low

def highLimit (r : Reaction σ α) : Except Fault (Expr α) :=
  if r.high.isEmpty then arrhenius r.A r.b r.E else arrheniusOf r.high

def Pr : Expr α := .var "Pr"

def onePlusPr : Expr α := .group (1.0 + Pr)

def logPr : Expr α := .log10 (.atLeastTiny Pr)

def decay (written : α → Except Fault (Expr α)) (x : α) : Except Fault (Expr α) := do
  if Arithmetic.isPositive x then return .exp (-.T / (← written x))
  else return .exp (.T / (← written (Arithmetic.abs x)))

def barrier (written : α → Except Fault (Expr α)) (x : α) : Except Fault (Expr α) := do
  if Arithmetic.isPositive x then return .exp (-(← written x) / .T)
  else return .exp ((← written (Arithmetic.abs x)) / .T)

def hasFourthTroe (parameters : List α) : Bool :=
  parameters.length == 4 && match parameters[3]? with
    | some x => !Arithmetic.isZero x
    | none => false

def troeDenominator (one : Expr α) : Expr α :=
  .group (one + .var "A" * .var "A" / .group (.var "B" * .var "B"))

def troeSteps (r : Reaction σ α) : Except Fault (List (Step α)) := do
  let written := fun x => Except.ok (Expr.sci 8 x)
  let a ← entryAt r.troeParameters 0
  let first := Expr.sci 8 (Arithmetic.unit - a) * (← decay written (← entryAt r.troeParameters 1))
  let second := first + Expr.sci 8 a * (← decay written (← entryAt r.troeParameters 2))
  let center ←
    if hasFourthTroe r.troeParameters then do
      pure (second + (← barrier written (← entryAt r.troeParameters 3)))
    else pure second
  return [
    .setVar "logFcent" (Expr.apply "log10" 1 (Expr.atLeastTiny center)),
    .setVar "A" (logPr - 0.67 * Expr.var "logFcent" - 0.4),
    .setVar "B" (0.806 - 1.1762 * Expr.var "logFcent" - 0.14 * logPr)]

def troeFactor : Expr α := .tenPower (.var "logFcent" / troeDenominator 1.0)

def sriExponent : Step α := .setVar "X" (1.0 / .group (1.0 + logPr * logPr))

def sriFactor (before : Option (Expr α)) (r : Reaction σ α) : Except Fault (Expr α) := do
  let written := fun x => Expr.bounded 6 x
  let a ← written (← entryAt r.sriParameters 0)
  let first := a * (← barrier written (← entryAt r.sriParameters 1))
  let base := first + (← decay written (← entryAt r.sriParameters 2))
  let power := .pow base (.var "X")
  let start := match before with
    | some e => .binary .times { before := 0 } e power
    | none => power
  if r.sriParameters.length == 5 then do
    let d ← entryAt r.sriParameters 3
    let e ← entryAt r.sriParameters 4
    if Arithmetic.eq d Arithmetic.unit || Arithmetic.isZero e then return start
    else return start * .sci 8 d * .pow .T (← written e)
  else return start

/-- A factor times `Pr/(1+Pr)` for a low-pressure limit or over `1+Pr` for a high-pressure one. -/
def applyLimit (r : Reaction σ α) (factor : Expr α) : Expr α :=
  if !r.low.isEmpty then factor * Pr / onePlusPr
  else if !r.high.isEmpty then factor / onePlusPr
  else .padded 0 1 factor

def plainModification (r : Reaction σ α) : Expr α :=
  if !r.low.isEmpty then .padded 1 0 (Pr / onePlusPr)
  else if !r.high.isEmpty then 1.0 / onePlusPr
  else .hole

/-- The statements that compute the pressure modification `target` of a falloff reaction. -/
def falloffSteps (concentrations : String) (target : Expr α) (r : Reaction Nat α) :
    Except Fault (List (Step α)) := do
  let colliders : List (Step α) := match r.collider with
    | none => [.setVar "thd" (thirdBodySum concentrations r.efficiencies)]
    | some _ => []
  let k0 ← lowLimit r
  let kinf ← highLimit r
  let collider := match r.collider with
    | none => Expr.var "thd"
    | some s => Expr.cell concentrations s
  let pressure := Expr.var "k0" * collider / Expr.var "kinf"
  let limits : List (Step α) := [.setVar "k0" k0, .setVar "kinf" kinf, .setVar "Pr" pressure]
  let last : List (Step α) ←
    if r.troe then do
      let steps ← troeSteps r
      pure (List.flatten [steps, [.set target (applyLimit r troeFactor)]])
    else if r.sri then do
      let factor ← sriFactor none r
      pure [sriExponent, .set target (applyLimit r factor)]
    else pure [.set target (plainModification r)]
  return colliders ++ limits ++ last

end Kinetics.Rate
