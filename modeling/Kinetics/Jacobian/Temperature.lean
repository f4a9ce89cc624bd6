import Kinetics.Code.Language
import Kinetics.Jacobian.Falloff
import Kinetics.Rate.Chebyshev
import Kinetics.Rate.Plog
/-!
# Temperature derivatives of reaction rates

For each reaction, `j_temp` is the temperature derivative of its net rate over the density, at
fixed pressure and composition. It is a product of a leading factor, which depends on the kind of
pressure modification, and a body, which depends on the rate law.
-/

namespace Kinetics.Jacobian

open Code Rate

variable {α : Type} [Arithmetic α]

/-! ## Leading factors -/

structure Lead (α : Type) where
  /-- The part of the derivative that does not come from the rate law. -/
  extra : Option (Expr α)
  /-- The factor of the body, before division by the temperature. -/
  scale : Expr α
  deriving Inhabited

def Lead.value (lead : Lead α) (body : Expr α) : Expr α :=
  let main := .group (lead.scale / .T) * .group body
  .group (match lead.extra with
    | some e => e + main
    | none => main) * .var "rho_inv"

def Lead.start (lead : Lead α) : Expr α :=
  .opened (match lead.extra with
    | some e => e + .opened lead.scale
    | none => .opened lead.scale)

def falloffLead (k : Ranks) (r : Reaction Nat α) : Except Fault (Lead α) := do
  return {
    extra := some (k.modification * .group (← modificationSlope r) * k.net r)
    scale := k.modification }

def thirdBodyLead (k : Ranks) (r : Reaction Nat α) : Lead α where
  extra := some (.group (-k.modification * k.net r / .T))
  scale := k.modification

def plainLead : Lead α where
  extra := none
  scale := 1.0

/-! ## Bodies -/

def matters (x : α) : Bool := Arithmetic.lt (Arithmetic.ofDecimal ⟨10, 1, -90⟩) (Arithmetic.abs x)

/-- `b + E/T`, the logarithmic derivative of a rate constant times the temperature. -/
def rateSlope (b E : α) : Option (Expr α) :=
  if matters b then
    if matters E then some (.full b + .group (.full E / .T)) else some (.full b)
  else if matters E then some (.group (.full E / .T))
  else none

def reverseSlope (r : Reaction Nat α) : Except Fault (Option (Expr α)) := do
  return rateSlope (← entryAt r.reverse 1) (← entryAt r.reverse 2)

def orderTerm (nu : List α) : Option (Expr α) :=
  let order := Arithmetic.sum nu
  if Arithmetic.eq order Arithmetic.unit then none
  else some (.plain (Arithmetic.unit - Arithmetic.pointed order))

def addEquilibriumSlope (sum : Expr α) (nu : α) (s : Nat) : Expr α :=
  let slope := .cell "dBdT" s
  if Arithmetic.eq nu Arithmetic.one then sum + slope
  else if Arithmetic.eq nu (-Arithmetic.one) then sum - slope
  else if Arithmetic.isPositive nu then sum + .plain (Arithmetic.pointed nu) * slope
  else sum - .plain (Arithmetic.pointed (Arithmetic.abs nu)) * slope

def firstEquilibriumSlope (nu : α) (s : Nat) : Expr α :=
  let slope := .cell "dBdT" s
  if Arithmetic.eq nu Arithmetic.one then slope
  else if Arithmetic.eq nu (-Arithmetic.one) then -slope
  else .plain (Arithmetic.pointed nu) * slope

/-- The derivative of the exponent of the equilibrium constant: products first, then reactants
that are no products. A sum of reactants alone starts with an operator. -/
def equilibriumSlope (r : Reaction Nat α) : Except Fault (Option (Expr α)) := do
  let products ← r.products.filterMapM fun s => do
    let made ← Reaction.coefficient r.products r.productNu s
    let nu ←
      if r.reactants.contains s then do
        pure (made - (← Reaction.coefficient r.reactants r.reactantNu s))
      else pure made
    return if Arithmetic.isZero nu then none else some (s, nu)
  let reactants ← (r.reactants.filter fun s => !r.products.contains s).mapM fun s => do
    return (s, -(← Reaction.coefficient r.reactants r.reactantNu s))
  let start := match products with
    | [] => none
    | (s, nu) :: rest =>
      some (rest.foldl (fun sum (t, mu) => addEquilibriumSlope sum mu t) (firstEquilibriumSlope nu s))
  return reactants.foldl (fun sum (s, nu) => some (addEquilibriumSlope (sum.getD .hole) nu s)) start

def joined (a b : Option (Expr α)) : Option (Expr α) :=
  match a, b with
  | some x, some y => some (x + y)
  | some x, none => some x
  | none, y => y

def twoWayBody (k : Ranks) (r : Reaction Nat α) : Except Fault (Option (Expr α)) := do
  let forward := (joined (rateSlope r.b r.E) (orderTerm r.reactantNu)).map fun e =>
    k.forward * .group e
  let backward := (joined (← reverseSlope r) (orderTerm r.productNu)).map fun e =>
    k.backward * .group e
  return match backward with
    | some e => some (forward.getD .hole - e)
    | none => forward

/-- The factor of the reverse rate when the reverse rate constant comes from equilibrium. Without
the derivative of the equilibrium constant the factor is incomplete. -/
def equilibriumFactor (order slope : Option (Expr α)) : Expr α :=
  match slope with
  | some e =>
    let main := -.T * .group e
    .group (match order with
      | some c => c + main
      | none => main)
  | none => .opened (order.getD .hole + .hole)

def equilibriumBody (k : Ranks) (r : Reaction Nat α) : Except Fault (Option (Expr α)) := do
  let constant := (rateSlope r.b r.E).map fun e => .group (k.difference r) * .group e
  let order := (orderTerm r.reactantNu).map fun e => k.forward * e
  let forward := joined constant order
  let slope ← equilibriumSlope r
  let reverseOrder := orderTerm r.productNu
  if slope.isSome || reverseOrder.isSome then
    let factor := equilibriumFactor reverseOrder slope
    return some (match forward with
      | some e => e - k.backward * factor
      | none => -k.backward * factor)
  else return forward

def forwardBody (k : Ranks) (r : Reaction Nat α) : Option (Expr α) :=
  match rateSlope r.b r.E, orderTerm r.reactantNu with
  | none, none => none
  | slope, none => some (k.forward * .group (slope.getD .hole))
  | slope, some c => some (k.forward * .group (slope.getD .hole + c))

/-- The body of a reaction with an Arrhenius rate constant; there is none if the derivative
vanishes. -/
def elementaryBody (k : Ranks) (r : Reaction Nat α) : Except Fault (Option (Expr α)) :=
  if r.reversible then
    if r.reverse.isEmpty then equilibriumBody k r else twoWayBody k r
  else .ok (forwardBody k r)

/-- Adds the terms for the change of concentrations with temperature to the body of a Chebyshev
reaction. -/
def chebyshevBody (k : Ranks) (r : Reaction Nat α) : Except Fault (Expr α) := do
  let (_, difference) ← temperatureScale r
  let ten ← Arithmetic.log (Arithmetic.ofInt 10)
  let factor ← Arithmetic.div (-Arithmetic.tenths 20 * ten) difference
  let start := .var "kf" * .group (.full factor / .T) * .group (k.difference r)
  let body := match orderTerm r.reactantNu with
    | some c => start + k.forward * c
    | none => start
  if r.reversible then
    let slope := -.T * .group ((← equilibriumSlope r).getD .hole)
    let inner := match orderTerm r.productNu with
      | some c => c + slope
      | none => slope
    return body - k.backward * .group inner
  else return body

/-- The statements for a Chebyshev reaction; `close` makes the last one from its body. -/
def chebyshevTemperature (close : Nat → Expr α → Step α) (k : Ranks) (r : Reaction Nat α) :
    Except Fault (List (Step α)) := do
  let temperatures ← temperatureScale r
  let pressures ← pressureScale r
  let slope ← chebyshevSlope r
  let body ← chebyshevBody k r
  return [reducedTemperature 16 temperatures, reducedPressure 16 pressures] ++ slope
    ++ [close 2 body]

/-! ## Interpolation between pressures -/

structure Support (α : Type) where
  pressure : α
  A : α
  b : α
  E : α
  deriving Inhabited

def Support.ofList : List α → Except Fault (Support α)
  | [p, A, b, E] => .ok ⟨p, A, b, E⟩
  | _ => .error .unacceptable

/-- The body at one support: that of the same reaction with an Arrhenius rate constant. -/
def supportBody (k : Ranks) (r : Reaction Nat α) (s : Support α) : Except Fault (Option (Expr α)) :=
  elementaryBody k (Reaction.elementary r.reversible r.reactants r.reactantNu r.products r.productNu
    s.A s.b s.E)

/-- The logarithmic derivative of an interpolated rate constant, as a factor. If only the
temperature exponents differ, the factor is incomplete. -/
def interpolatedSlope (p q : Support α) : Except Fault (Expr α) := do
  if Arithmetic.isNegative (← Arithmetic.div q.A p.A) then throw (.unsupported "")
  if Arithmetic.isZero p.b && Arithmetic.isZero p.E && Arithmetic.isZero q.b && Arithmetic.isZero q.E
  then throw (.broken "PLOG Derivative undefined")
  let start := joined (if Arithmetic.isZero p.b then none else some (.full p.b))
    (if Arithmetic.isZero p.E then none else some (.full p.E / .T))
  let db := q.b - p.b
  let dE := q.E - p.E
  let dbTerm := if Arithmetic.isZero db then none else some (.full db)
  if Arithmetic.isZero dE then
    match dbTerm with
    | none => return .group (start.getD .hole)
    | some e => return .opened ((joined start (some (.opened (e + .hole)))).getD .hole)
  else
    let logPressure ←
      if Arithmetic.eq p.pressure Arithmetic.unit then pure (.log .pres)
      else do pure (.log .pres - .full (← Arithmetic.log p.pressure))
    if Arithmetic.eq p.pressure q.pressure then
      throw (.broken "Cannot have equal pressures in PLOG")
    let width := (← Arithmetic.log q.pressure) - (← Arithmetic.log p.pressure)
    let slope := .group ((joined dbTerm (some (.full dE / .T))).getD .hole)
    return .group ((joined start (some (slope * .group logPressure / .full width))).getD .hole)

def interpolatedBody (k : Ranks) (r : Reaction Nat α) (p q : Support α) :
    Except Fault (Expr α) := do
  let start := (← interpolatedSlope p q) * Expr.group (k.difference r)
  let body := match orderTerm r.reactantNu with
    | some c => start + k.forward * c
    | none => start
  if r.reversible then
    let slope ← equilibriumSlope r
    match orderTerm r.productNu, slope with
    | none, none => return body
    | some c, none => return body - k.backward * Expr.group (c + Expr.hole)
    | none, some e => return body - k.backward * Expr.group (-Expr.T * Expr.group e)
    | some c, some e => return body - k.backward * Expr.group (c + -Expr.T * Expr.group e)
  else return body

def interpolatedArms (close : Nat → Expr α → Step α) (k : Ranks) (r : Reaction Nat α) :
    List (List α) → Except Fault (List (Condition α × List (Step α)))
  | first :: second :: rest => do
    let p ← Support.ofList first
    let q ← Support.ofList second
    let body ← interpolatedBody k r p q
    return (.between "pres" (.scientific 4) p.pressure q.pressure, [close 4 body]) ::
      (← interpolatedArms close k r (second :: rest))
  | _ => .ok []

/-- The statements for a reaction interpolated between pressures. The choice is left open if the
derivative vanishes above the last pressure. -/
def plogTemperature (close : Nat → Expr α → Step α) (k : Ranks) (r : Reaction Nat α) :
    Except Fault (Item α) := do
  let all ← supports r
  let first ← Support.ofList (← entryAt all 0)
  let low ← supportBody k r first
  let middle ← interpolatedArms close k r all
  let last ← Support.ofList (← lastEntry all)
  let high ← supportBody k r last
  let block := fun (condition : Condition α) (body : Option (Expr α)) =>
    (body.map fun e => (condition, [close 4 e])).toList
  return .choice 2
    (block (.atMost "pres" (.scientific 4) first.pressure) low ++ middle
      ++ block (.above "pres" (.scientific 4) last.pressure) high)
    high.isSome

/-! ## Equilibrium derivatives -/

def gibbsSlope (p : Nasa α) : Expr α :=
  .group (.full (p.a1 - Arithmetic.unit) + .full p.a6 / .T) / .T + .full (Arithmetic.part p.a2 2)
    + .T * .group (.full (Arithmetic.part p.a3 3)
      + .T * .group (.full (Arithmetic.part p.a4 4) + .full (Arithmetic.part p.a5 5) * .T))

/-- Species grouped by midpoint temperature, in the order in which they were met. -/
def groupByMidpoint (groups : List (α × List Nat)) (midpoint : α) (s : Nat) : List (α × List Nat) :=
  if groups.any fun g => Arithmetic.eq g.1 midpoint then
    groups.map fun (m, members) => if Arithmetic.eq m midpoint then (m, members ++ [s]) else (m, members)
  else groups ++ [(midpoint, [s])]

/-- Species that take part in a reversible reaction without given reverse rate, each once. -/
def equilibriumSpecies (reactions : List (Reaction Nat α)) : List Nat :=
  (reactions.filter fun r => r.reversible && r.reverse.isEmpty).flatMap
    (fun r => r.reactants ++ r.products) |>.eraseDups

def equilibriumFlags (n : Nat) (reactions : List (Reaction Nat α)) : List Bool :=
  (List.range n).map (equilibriumSpecies reactions).contains

def equilibriumSlopeItems (l : Language) (species : List (Species α))
    (reactions : List (Reaction Nat α)) : Except Fault (List (Item α)) := do
  let declaration ←
    if reactions.any (·.reversible) then
      if l == .c then pure [.declare 2 "double" ["dBdT"] (some species.length) none .semicolon]
      else do
        pure [.declare 2 ("double * " ++ (← l.noAlias)) ["dBdT"] none (some (.var "d_mem->dBdT"))
          .semicolon]
    else pure []
  let groups ← (equilibriumSpecies reactions).foldlM (fun groups s => do
    return groupByMidpoint groups (← entryAt species s).midpoint s) []
  let items ← groups.mapM fun (midpoint, members) => do
    let steps := fun (range : Species α → Nasa α) => (members.mergeSort (· ≤ ·)).mapM fun s => do
      return Step.assign 4 (.cell "dBdT" s) .set (gibbsSlope (range (← entryAt species s)))
    return .split 2 (.atMost "T" .shortest midpoint) (← steps (·.low)) (← steps (·.high))
  return declaration.map .step ++ items

end Kinetics.Jacobian
