import Kinetics.Jacobian.Ranks
import Kinetics.Rate.Falloff
/-!
# Falloff in the Jacobian

The reduced pressure and the broadening factors as the Jacobian code needs them, and the part of
the temperature derivative that comes from the pressure modification.
-/

namespace Kinetics.Jacobian

open Code Rate

variable {α : Type} [Arithmetic α]

/-- The quotient of the low- and high-pressure limits: difference of the exponents, difference of
the activation temperatures, and the expression. -/
def limitRatio (r : Reaction Nat α) : Except Fault (α × α × Expr α) := do
  if !r.low.isEmpty then
    let beta := (← entryAt r.low 1) - r.b
    let E := (← entryAt r.low 2) - r.E
    return (beta, E, ← arrhenius (← Arithmetic.div (← entryAt r.low 0) r.A) beta E)
  else if !r.high.isEmpty then
    let beta := r.b - (← entryAt r.high 1)
    let E := r.E - (← entryAt r.high 2)
    return (beta, E, ← arrhenius (← Arithmetic.div r.A (← entryAt r.high 0)) beta E)
  else throw (.unset "limits")

/-! ## Collider concentrations -/

abbrev Excess (α : Type) := List (Nat × α)

def excessOf (efficiencies : List (Nat × α)) : Excess α :=
  (efficiencies.filter fun e => !Arithmetic.eq e.2 Arithmetic.unit).map fun (s, x) =>
    (s, x - Arithmetic.unit)

def excessChange (last new : Excess α) : Excess α :=
  (new.filterMap fun (s, x) =>
    let change := match last.find? (·.1 == s) with
      | some e => x - e.2
      | none => x
    if Arithmetic.isZero change then none else some (s, change))
  ++ (last.filter fun e => !new.any (·.1 == e.1)).map fun (s, x) => (s, -x)

def sameExcess (x y : Excess α) : Bool :=
  Species.agree (fun a b => a.1 == b.1 && Arithmetic.eq a.2 b.2) x y

def excessSum (start : Option (Expr α)) : Excess α → Expr α
  | [] => start.getD .hole
  | (s, x) :: rest =>
    let first := .plain x * .cell "conc" s
    let first := match start with
      | some e => e + first
      | none => first
    rest.foldl (fun sum (t, y) =>
      let term := .plain (Arithmetic.abs y) * .cell "conc" t
      if Arithmetic.isNegative y then sum - term else sum + term) first

/-- The statement that brings the collider concentration from the last reaction's to this one's,
or computes it anew if that is not longer. -/
def updateCollider (last new : Excess α) : List (Step α) :=
  let change := excessChange last new
  let used := if change.length < new.length then change else new
  let isChange := sameExcess used change
  if used.isEmpty then []
  else
    [.assign 2 (.var "conc_temp") (if isChange then .add else .set)
      (.group (excessSum (if isChange then none else some (.var "m")) used))]

/-- The statements for the collider concentration, and the excesses that the next reaction can
build on. -/
def colliderItems (last : Option (Excess α)) (r : Reaction Nat α) :
    List (Item α) × Option (Excess α) :=
  match r.collider with
  | some s => ([.step (.setVar "conc_temp" (.cell "conc" s))], none)
  | none =>
    if r.efficiencies.isEmpty then ([.step (.setVar "conc_temp" (.var "m"))], none)
    else
      let new := excessOf r.efficiencies
      let looked := Item.consult (new.map fun e => ("conc", some (e.1 : Int)))
      match last with
      | some last => (looked :: (updateCollider last new).map .step, some new)
      | none => ([.step (.setVar "conc_temp" (.group (thirdBodySum "conc" r.efficiencies)))], some new)

def reducedPressureItems (last : Option (Excess α)) (r : Reaction Nat α) :
    Except Fault (List (Item α) × Option (Excess α)) := do
  let (items, new) := colliderItems last r
  if r.falloff then
    let (_, _, ratio) ← limitRatio r
    return (items ++ [.step (.setVar "Pr" (.var "conc_temp" * .group ratio))], new)
  else return (items, new)

/-! ## Broadening factors -/

def troeSquare : Expr α := troeDenominator 1.0

def safeLog10 (name : String) : Expr α := .log10 (.atLeastTiny (.var name))

def troeItems (r : Reaction Nat α) : Except Fault (List (Step α)) := do
  let a ← entryAt r.troeParameters 0
  let first := Expr.full (Arithmetic.unit - a) * Expr.exp (Expr.T / Expr.full (-(← entryAt r.troeParameters 1)))
  let second := first + Expr.full a * Expr.exp (Expr.T / Expr.full (-(← entryAt r.troeParameters 2)))
  let center ←
    if hasFourthTroe r.troeParameters then do
      pure (second + Expr.exp (Expr.full (-(← entryAt r.troeParameters 3)) / Expr.T))
    else pure second
  return [
    .setVar "Fcent" center,
    .setVar "A" (logPr - 0.67 * safeLog10 "Fcent" - 0.4),
    .setVar "B" (0.806 - 1.1762 * safeLog10 "Fcent" - 0.14 * logPr),
    .setVar "lnF_AB" (2.0 * Expr.log (Expr.atLeastTiny (Expr.var "Fcent")) * Expr.var "A"
      / Expr.group (Expr.var "B" * Expr.var "B" * Expr.var "B" * troeSquare * troeSquare))]

def overLogTen (d : Decimal) : Except Fault α := do
  Arithmetic.div (Arithmetic.ofDecimal d) (← Arithmetic.log (Arithmetic.tenths 100))

/-- `β + E/T - 1`, the logarithmic derivative of the reduced pressure times the temperature. -/
def pressureSlope (places : Nat) (beta E : α) : Expr α :=
  .group (.sci places beta + .group (.full E / .T) - 1.0)

def addSriSlope (sum : Expr α) (r : Reaction Nat α) (beta E : α) : Except Fault (Expr α) := do
  let a ← entryAt r.sriParameters 0
  let b ← entryAt r.sriParameters 1
  let c ← entryAt r.sriParameters 2
  let ab ← Expr.bounded 16 (a * b)
  let bExpr ← Expr.bounded 16 (-b)
  let rate := Expr.full (← Arithmetic.inverse c)
  let cExpr ← Expr.bounded 16 (-c)
  let aExpr ← Expr.bounded 16 a
  let squared := Expr.group (ab / Expr.group (Expr.T * Expr.T))
  let numerator := Expr.group (squared * Expr.exp (bExpr / Expr.T)
    - rate * Expr.exp (Expr.T / cExpr))
  let base := aExpr * Expr.exp (bExpr / Expr.T) + Expr.exp (Expr.T / cExpr)
  let factor ← Expr.bounded 16 (← overLogTen ⟨20, 1, 0⟩)
  let slope := Expr.group (numerator / Expr.group base
    - Expr.var "X" * factor * logPr * pressureSlope 16 beta E * Expr.log base / Expr.T)
  let sum := sum + Expr.var "X" * slope
  if r.sriParameters.length == 5 then
    let e ← entryAt r.sriParameters 4
    if Arithmetic.isZero e then return sum
    else return sum + Expr.group ((← Expr.bounded 16 e) / Expr.T)
  else return sum

def addTroeSlope (sum : Expr α) (r : Reaction Nat α) (beta E : α) : Except Fault (Expr α) := do
  let a ← entryAt r.troeParameters 0
  let t3 ← entryAt r.troeParameters 1
  let t1 ← entryAt r.troeParameters 2
  let outer := Expr.group (Expr.group (1.0 / Expr.group (Expr.var "Fcent" * troeSquare))
    - Expr.var "lnF_AB" * Expr.group (-Expr.full (← overLogTen ⟨67, 2, 0⟩) * Expr.var "B"
      + Expr.full (← overLogTen ⟨11762, 4, 0⟩) * Expr.var "A") / Expr.var "Fcent")
  let first := Expr.full (← Arithmetic.div (-(Arithmetic.unit - a)) t3)
  let inner := first * Expr.exp (Expr.T / Expr.full (-t3))
    - Expr.full (← Arithmetic.div a t1) * Expr.exp (Expr.T / Expr.full (-t1))
  let inner ←
    if hasFourthTroe r.troeParameters then do
      let t2 ← entryAt r.troeParameters 3
      let last := Expr.group (Expr.full t2 / Expr.group (Expr.T * Expr.T))
      pure (inner + last * Expr.exp (Expr.full (-t2) / Expr.T))
    else pure inner
  let sum := sum + Expr.group (outer * Expr.group inner)
  return sum - Expr.var "lnF_AB" * Expr.group (Expr.full (← overLogTen ⟨10, 1, 0⟩) * Expr.var "B"
    + Expr.full (← overLogTen ⟨14, 2, 0⟩) * Expr.var "A") * pressureSlope 16 beta E / Expr.T

def modificationSlope (r : Reaction Nat α) : Except Fault (Expr α) := do
  let (beta, E, _) ← limitRatio r
  let slope := pressureSlope 4 beta E
  let signed := if r.high.isEmpty then slope else -Pr * slope
  let limits := .group (signed / .group (.T * onePlusPr))
  if r.sri then addSriSlope limits r beta E
  else if r.troe then addTroeSlope limits r beta E
  else return limits

end Kinetics.Jacobian
