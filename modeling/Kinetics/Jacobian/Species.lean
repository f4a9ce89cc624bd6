import Kinetics.Jacobian.Falloff
import Kinetics.Rate.Chebyshev
import Kinetics.Rate.Plog
/-!
# Derivatives of reaction rates by mass fractions

`j_temp` holds the part of the derivative that is the same for all species, `pres_mod_temp` the
part that comes from the third-body concentration. The derivative by the mass fraction of one
species adds to them the terms of the concentrations. The mass fractions sum to one, so a change
of any species also changes the last one.
-/

namespace Kinetics.Jacobian

open Code Rate

variable {α : Type} [Arithmetic α]

/-! ## Parts common to all species -/

def limitShare (r : Reaction Nat α) : Expr α :=
  if !r.low.isEmpty then .group (1.0 / onePlusPr)
  else if !r.high.isEmpty then .group (-Pr / onePlusPr)
  else .hole

def takeTroeShare (sum : Expr α) : Except Fault (Expr α) := do
  let first ← Expr.bounded 16 (← overLogTen ⟨10, 1, 0⟩)
  let second ← Expr.bounded 16 (← overLogTen ⟨14, 2, 0⟩)
  return sum - Expr.log (Expr.atLeastTiny (Expr.var "Fcent")) * 2.0 * Expr.var "A"
    * Expr.group (Expr.var "B" * first + Expr.var "A" * second)
    / Expr.group (Expr.var "B" * Expr.var "B" * Expr.var "B" * troeSquare * troeSquare)

def takeSriShare (sum : Expr α) (r : Reaction Nat α) : Except Fault (Expr α) := do
  let factor ← Expr.bounded 16 (← overLogTen ⟨20, 1, 0⟩)
  let a ← Expr.bounded 4 (← entryAt r.sriParameters 0)
  let b ← Expr.bounded 4 (-(← entryAt r.sriParameters 1))
  let c ← Expr.bounded 4 (-(← entryAt r.sriParameters 2))
  let base := a * Expr.exp (b / Expr.T) + Expr.exp (Expr.T / c)
  return Expr.binary .minus { before := 0 } sum
    (Expr.var "X" * Expr.var "X" * factor * logPr * Expr.log base)

def modificationStart (k : Ranks) (r : Reaction Nat α) : Except Fault (Step α) := do
  if r.falloff then
    let limits := limitShare r
    let broadened ←
      if r.troe then takeTroeShare limits
      else if r.sri then takeSriShare limits r
      else pure limits
    return .setVar "pres_mod_temp" (.group broadened * k.net r)
  else return .setVar "pres_mod_temp" (k.net r)

def orderedRate (order : α) (rate : Expr α) : Option (Expr α) :=
  if Arithmetic.isZero order then none
  else if Arithmetic.eq order Arithmetic.one then some rate
  else some (.plain (Arithmetic.pointed order) * rate)

def plusTerm (sum : Expr α) : Option (Expr α) → Expr α
  | some e => sum + e
  | none => sum

def lessTerm (sum : Expr α) : Option (Expr α) → Expr α
  | some e => sum - e
  | none => sum

def thirdBodyOrder (r : Reaction Nat α) : α :=
  Arithmetic.ofInt (if r.efficiencies.isEmpty || r.falloff then 0 else 1)

def orderedDifference (k : Ranks) (r : Reaction Nat α) : Expr α :=
  let third := thirdBodyOrder r
  let forward := (orderedRate (third + Arithmetic.sum r.reactantNu) k.forward).getD .hole
  if r.reversible then
    lessTerm forward (orderedRate (third + Arithmetic.sum r.productNu) k.backward)
  else forward

def commonDerivative (k : Ranks) (r : Reaction Nat α) : Step α :=
  let rates := orderedDifference k r
  let rates := if r.falloff && hasColliders r then rates + .var "pres_mod_temp" else rates
  let start := -.var "mw_avg" * .var "rho_inv"
  .setVar "j_temp" (if r.isModified then start * k.modification * .group rates
    else start * .group rates)

def limitQuotient (r : Reaction Nat α) : Except Fault (Expr α) := do
  let own := [r.A, r.b, r.E]
  let (low, high) := if r.low.isEmpty then (own, r.high) else (r.low, own)
  arrhenius (← Arithmetic.div (← entryAt low 0) (← entryAt high 0))
    ((← entryAt low 1) - (← entryAt high 1)) ((← entryAt low 2) - (← entryAt high 2))

def modificationEnd (r : Reaction Nat α) : Except Fault (Step α) := do
  let quotient ← limitQuotient r
  let factor ←
    if r.troe then pure (quotient * .pow (.var "Fcent") (1.0 / troeDenominator 1))
    else if r.sri then do pure (.padded 0 1 (← sriFactor (some quotient) r))
    else pure quotient
  return .assign 2 (.var "pres_mod_temp") .multiply (factor / onePlusPr)

def commonItems (k : Ranks) (r : Reaction Nat α) : Except Fault (List (Step α)) := do
  let start ← if needsModificationSlope r then do pure [← modificationStart k r] else pure []
  let finish ← if r.falloff && hasColliders r then do pure [← modificationEnd r] else pure []
  return start ++ [commonDerivative k r] ++ finish

/-! ## Rate constants -/

def forwardConstantItems (r : Reaction Nat α) : Except Fault (List (Item α)) :=
  if r.plog then do return [← plogRate r]
  else if r.chebyshev then do return (← chebyshevRate r true).map Item.step
  else do return [.step (.setVar "kf" (← arrhenius r.A r.b r.E))]

def reverseConstantItems (r : Reaction Nat α) : Except Fault (List (Item α)) :=
  if !r.reverse.isEmpty then do return [.step (.setVar "kr" (← arrheniusOf r.reverse))]
  else if r.reversible then .ok [.step (.setVar "kr" (.var "kf" / .var "Kc"))]
  else .ok []

def rateConstants (r : Reaction Nat α) : Except Fault (List (Item α)) := do
  return (← forwardConstantItems r) ++ (← reverseConstantItems r)

/-! ## The derivative by one species -/

/-- A product with a concentration raised to a power: a repeated factor if the power is whole. -/
def timesPower (e : Expr α) (s : Nat) (power : α) : Expr α :=
  if Arithmetic.isWhole power then
    (List.replicate (Arithmetic.wholePart power).toNat (.cell "conc" s)).foldl (· * ·) e
  else e * .pow (.cell "conc" s) (.plain power)

def powerSlope (constant : String) (s : Nat) (order : α) : Expr α :=
  let scaled :=
    if Arithmetic.eq order Arithmetic.one then .var constant
    else .var constant * .plain (Arithmetic.pointed order)
  let below := order - Arithmetic.one
  if Arithmetic.isPositive below then timesPower scaled s below else scaled

/-- The derivative of a product of concentrations by one of them, times the rate constant. -/
def concentrationSlope (constant : String) (species : List Nat) (nu : List α) (s : Nat) :
    Except Fault (Expr α) := do
  let own := powerSlope constant s (← Reaction.coefficient species nu s)
  species.zipIdx.foldlM (fun product (other, i) =>
    if other = s then .ok product
    else do return timesPower product other (← entryAt nu i)) own

def directionSlope (constant : String) (species : List Nat) (nu : List α) (s : Nat) :
    Except Fault (Option (Expr α)) :=
  if species.contains s then do return some (← concentrationSlope constant species nu s) else .ok none

/-- The derivatives of forward and reverse rate by a concentration, each if it depends on it. -/
def rateSlopes (r : Reaction Nat α) (s : Nat) : Except Fault (Option (Expr α) × Option (Expr α)) := do
  let forward ← directionSlope "kf" r.reactants r.reactantNu s
  if r.reversible then return (forward, ← directionSlope "kr" r.products r.productNu s)
  else return (forward, none)

/-- A difference of parts that may be missing. -/
def differenceOf (gap : Gap) : Option (Expr α) → Option (Expr α) → Option (Expr α)
  | some a, some b => some (.binary .minus gap a b)
  | none, some b => some (-b)
  | a, none => a

/-- The net slope by the last species' concentration, as it stands in parentheses. -/
def lastSlope (slopes : Option (Expr α) × Option (Expr α)) : Option (Expr α) :=
  differenceOf {} slopes.1 slopes.2

def addSlopes (sum : Expr α) (fraction : α) (own : Option (Expr α) × Option (Expr α))
    (last : Option (Expr α)) : Expr α :=
  lessTerm (lessTerm (plusTerm sum own.1) own.2) (last.map fun e => .full fraction * .group e)

def modifiedSlopes (fraction : α) (own : Option (Expr α) × Option (Expr α))
    (last : Option (Expr α)) : Option (Expr α) :=
  differenceOf {} (differenceOf { before := 0, after := 0 } own.1 own.2)
    (last.map fun e => .full fraction * .group e)

def efficiencyOf (r : Reaction Nat α) (s : Nat) : α :=
  match r.efficiencies.find? (·.1 == s) with
  | some e => e.2
  | none => Arithmetic.unit

def addColliderShare (sum : Expr α) (species : List (Species α)) (r : Reaction Nat α) (j : Nat)
    (weight fraction : α) : Except Fault (Expr α) := do
  let slope := .var "pres_mod_temp"
  let last := species.length - 1
  if ((r.falloff && r.collider.isNone) || r.thirdBody) && !r.efficiencies.isEmpty then
    let own := efficiencyOf r j
    let lastOwn := efficiencyOf r last
    let alpha := if Arithmetic.isZero lastOwn then own else own - lastOwn * fraction
    if Arithmetic.isZero alpha then return sum
    else if Arithmetic.eq alpha Arithmetic.one then return sum + slope
    else if Arithmetic.eq alpha (-Arithmetic.one) then return sum - slope
    else return sum + .full alpha * slope
  else if r.collider == some j then return sum + slope
  else if r.collider == some last then
    return sum - slope * .full (← Arithmetic.div weight (← entryAt species last).weight)
  else return sum

def speciesDerivative (species : List (Species α)) (k : Ranks) (r : Reaction Nat α) (j : Nat)
    (weight : α) : Except Fault (Expr α) := do
  let fraction ← Arithmetic.div weight (← lastEntry species).weight
  let start := .var "j_temp" * .full (Arithmetic.unit - fraction)
  let sum ← addColliderShare start species r j weight fraction
  let own ← rateSlopes r j
  let last := lastSlope (← rateSlopes r (species.length - 1))
  if r.isModified then
    match modifiedSlopes fraction own last with
    | some e => return sum + k.modification * .group e
    | none => return sum
  else return addSlopes sum fraction own last

end Kinetics.Jacobian
