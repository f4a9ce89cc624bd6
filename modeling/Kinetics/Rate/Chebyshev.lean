import Kinetics.Code.Step
import Kinetics.Mechanism.Reaction
/-!
# Chebyshev rate constants

The logarithm of the rate constant is a double Chebyshev sum in reduced temperature and reduced
pressure. Emitted code first sums over pressure for each temperature term, then over temperature,
with two work variables that run through the recurrence `T_{n+1} = 2 x T_n - T_{n-1}`.
-/

namespace Kinetics.Rate

open Code

variable {α : Type} [Arithmetic α] {σ : Type}

def chebyshevCoefficient (r : Reaction σ α) (i j : Nat) : Except Fault α :=
  match r.chebyshevCoefficients with
  | none => .error .wrongKind
  | some rows => do entryAt (← entryAt rows i) j

def temperatureScale (r : Reaction σ α) : Except Fault (α × α) := do
  let first ← Arithmetic.inverse (← entryAt r.temperatureLimits 0)
  let second ← Arithmetic.inverse (← entryAt r.temperatureLimits 1)
  return (first + second, second - first)

def pressureScale (r : Reaction σ α) : Except Fault (α × α) := do
  let first ← Arithmetic.log10 (← entryAt r.pressureLimits 0)
  let second ← Arithmetic.log10 (← entryAt r.pressureLimits 1)
  return (first + second, second - first)

def reducedTemperature (places : Nat) (scale : α × α) : Step α :=
  .setVar "Tred" (.group (.group (2.0 / .T) - .sci places scale.1) / .sci places scale.2)

def reducedPressure (places : Nat) (scale : α × α) : Step α :=
  .setVar "Pred" (.group (2.0 * .log10 .pres - .sci places scale.1) / .sci places scale.2)

def workVariable (second : Bool) : Expr α := .var (if second then "cheb_temp_1" else "cheb_temp_0")

def recurrence (two x : Expr α) (second : Bool) : Step α :=
  .set (workVariable second) (two * x * workVariable (!second) - workVariable second)

def partialSum (i : Nat) : Expr α := .cell "dot_prod" i

/-- The sums over pressure from the third term on; the flag says which work variable is older. -/
def pressureTail (places : Nat) (coefficient : Nat → Nat → Except Fault α) (rows : List Nat) :
    Bool → List Nat → Except Fault (List (Step α))
  | _, [] => .ok []
  | second, j :: js => do
    let updates ← rows.mapM fun i => do
      return .assign 2 (partialSum i) .add (.sci places (← coefficient i j) * workVariable second)
    return recurrence 2 (.var "Pred") second ::
      (updates ++ (← pressureTail places coefficient rows (!second) js))

def pressureSums (places : Nat) (coefficient : Nat → Nat → Except Fault α) (rows : List Nat)
    (pressureTerms : Nat) : Except Fault (List (Step α)) := do
  let starts ← rows.mapM fun i => do
    return .assign 2 (partialSum i) .setTight
      (.sci places (← coefficient i 0) + .var "Pred" * .sci places (← coefficient i 1))
  let tail ← pressureTail places coefficient rows false
    ((List.range pressureTerms).drop 2)
  return [.set (workVariable false) 1, .set (workVariable true) (.var "Pred")] ++ starts ++ tail

def temperatureTail (two : Expr α) : Bool → List Nat → List (Step α)
  | _, [] => []
  | second, i :: is =>
    recurrence two (.var "Tred") second ::
      .assign 2 (.var "kf") .add (partialSum i * workVariable second) ::
      temperatureTail two (!second) is

/-- The Chebyshev rate constant, with the reduced variables if they are not yet at hand. -/
def chebyshevRate (r : Reaction σ α) (defined : Bool) : Except Fault (List (Step α)) := do
  let temperatures ← temperatureScale r
  let pressures ← pressureScale r
  let rows := List.range r.temperatureTerms.toNat
  let sums ← pressureSums 8 (chebyshevCoefficient r) rows r.pressureTerms.toNat
  return (if defined then [] else [reducedTemperature 8 temperatures, reducedPressure 8 pressures])
    ++ sums
    ++ [.set (workVariable false) 1, .set (workVariable true) (Expr.var "Tred"),
      .setVar "kf" (partialSum 0 + Expr.var "Tred" * partialSum 1)]
    ++ temperatureTail 2 false (rows.drop 2)
    ++ [.setVar "kf" (Expr.tenPower (Expr.var "kf"))]

/-- The derivative of the double sum by reduced temperature, a sum over Chebyshev polynomials of
the second kind. -/
def chebyshevSlope (r : Reaction σ α) : Except Fault (List (Step α)) := do
  let rows := (List.range r.temperatureTerms.toNat).drop 1
  let weighted := fun (i j : Nat) => do
    return Arithmetic.ofInt (i : Int) * (← chebyshevCoefficient r i j)
  let sums ← pressureSums 16 weighted rows r.pressureTerms.toNat
  return sums
    ++ [.set (workVariable false) 1.0, .set (workVariable true) (2.0 * Expr.var "Tred"),
      .setVar "kf" (partialSum 1 + 2.0 * Expr.var "Tred" * partialSum 2)]
    ++ temperatureTail 2.0 false ((List.range r.temperatureTerms.toNat).drop 3)

end Kinetics.Rate
