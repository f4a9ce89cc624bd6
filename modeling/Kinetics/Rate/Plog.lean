import Kinetics.Code.Step
import Kinetics.Rate.Arrhenius
/-!
# Rate constants interpolated between pressures

Below the first and above the last support the rate constant is that of the support; between two
of them its logarithm is linear in the logarithm of the pressure.
-/

namespace Kinetics.Rate

open Code

variable {α : Type} [Arithmetic α] {σ : Type}

def supports (r : Reaction σ α) : Except Fault (List (List α)) :=
  match r.plogRates with
  | some rates => .ok rates
  | none => .error .wrongKind

def supportPressure (support : List α) : Except Fault α := entryAt support 0

def supportRate (support : List α) : Except Fault (Expr α) := do
  arrhenius (← entryAt support 1) (← entryAt support 2) (← entryAt support 3)

def betweenSupports : List (List α) → Except Fault (List (Condition α × List (Step α)))
  | first :: second :: rest => do
    let p ← supportPressure first
    let q ← supportPressure second
    let k := .log (← supportRate first)
    let k2 := .log (← supportRate second)
    let logP ← Arithmetic.log p
    let difference := (← Arithmetic.log q) - logP
    let interpolated := .exp (.var "kf" + .group (.var "kf2" - .var "kf")
      * .group (.log .pres - .full logP) / .full difference)
    let arms ← betweenSupports (second :: rest)
    return (.between "pres" (.scientific 4) p q,
      [.assign 4 (.var "kf") .set k, .assign 4 (.var "kf2") .set k2,
        .assign 4 (.var "kf") .set interpolated]) :: arms
  | _ => .ok []

def plogRate (r : Reaction σ α) : Except Fault (Item α) := do
  let all ← supports r
  let first ← entryAt all 0
  let low ← supportRate first
  let middle ← betweenSupports all
  let last ← lastEntry all
  let high ← supportRate last
  return .choice 2
    ((.atMost "pres" (.scientific 4) (← supportPressure first), [.assign 4 (.var "kf") .set low]) ::
      (middle ++
        [(.above "pres" (.scientific 4) (← supportPressure last),
          [.assign 4 (.var "kf") .set high])])) true

end Kinetics.Rate
