import Kinetics.Code.Placement
import Kinetics.Jacobian.Sharing
import Kinetics.Jacobian.Species
import Kinetics.Jacobian.Temperature
/-!
# The reaction loop of the Jacobian

Every reaction adds its share to the entries of the species that it changes: first to the
temperature column, then to the species columns. The matrix is stored by columns, with the
temperature in row and column zero. The last species has no row of its own; its entries are kept
in `J_nplusone` and `J_nplusjplus`.
-/

namespace Kinetics.Jacobian

open Code Rate

variable {α : Type} [Arithmetic α]

/-- The species whose entries have been written, in the temperature column and in the species
columns. -/
structure Progress where
  temperature : List Nat := []
  composition : List Nat := []
  deriving Repr, DecidableEq, Inhabited

/-- The species that a reaction changes, in ascending order, with weights and net coefficients. -/
def changed (species : List (Species α)) (r : Reaction Nat α) :
    Except Fault (List (Nat × α × α)) :=
  (participants r).filterMapM fun s => do
    let weight := (← entryAt species s).weight
    let nu ← r.net s
    return if Arithmetic.isZero nu then none else some (s, weight, nu)

/-! ## The temperature column -/

def broadeningSteps (r : Reaction Nat α) : Except Fault (List (Step α)) :=
  if r.troe then troeItems r
  else if r.sri then .ok [sriExponent]
  else .ok []

/-- The leading factor of the derivative, with the statements that prepare it and what the next
reaction can build its collider concentration on. -/
def leadingPart (excess : Option (Excess α)) (k : Ranks) (r : Reaction Nat α) :
    Except Fault (List (Item α) × Lead α × Option (Excess α)) :=
  if r.falloff then do
    let (items, next) ← reducedPressureItems excess r
    let broadening ← broadeningSteps r
    return (items ++ broadening.map Item.step, ← falloffLead k r, next)
  else if r.thirdBody then .ok ([], thirdBodyLead k r, excess)
  else .ok ([], plainLead, excess)

/-- The statements that assign `j_temp`; there are none if the derivative vanishes. -/
def slopeAssignment (lead : Lead α) (k : Ranks) (r : Reaction Nat α) :
    Except Fault (Option (List (Item α))) :=
  let close := fun indent body => Step.assign indent (.var "j_temp") .set (lead.value body)
  if r.plog then do return some [← plogTemperature close k r]
  else if r.chebyshev then do return some ((← chebyshevTemperature close k r).map .step)
  else do return (← elementaryBody k r).map fun body => [.step (close 2 body)]

/-- The statements for `j_temp`, whether it is assigned, and what the next reaction can build its
collider concentration on. -/
def temperatureItems (excess : Option (Excess α)) (k : Ranks) (r : Reaction Nat α) :
    Except Fault (List (Item α) × Bool × Option (Excess α)) := do
  let (before, lead, excess) ← leadingPart excess k r
  let assignment ← slopeAssignment lead k r
  let looked := Item.consult (lead.value .hole).cells
  return (.step (temperatureRemark k.all) :: before ++ looked :: assignment.getD [],
    assignment.isSome, excess)

def temperatureEntry (n : Nat) (unrolled : Bool) (s : Nat) : Expr α :=
  if s + 1 = n then (if unrolled then .pointee "J_nplusone" false else .var "J_nplusone")
  else .cell "jac" (s + 1 : Nat)

def temperatureShare (weight nu : α) : Expr α :=
  let slope := .var "j_temp"
  if Arithmetic.eq nu Arithmetic.one then slope * .full weight
  else if Arithmetic.eq nu (-Arithmetic.one) then -slope * .full weight
  else slope * .plain (Arithmetic.pointed nu) * .full weight

/-- How a reaction changes an entry of the temperature column. Only entries inside the matrix are
remembered as written, and a matrix for one species has none. -/
def temperatureForm (n : Nat) (progress : Progress) (s : Nat) : Except Fault Form :=
  if n ≤ 1 then .error .missingEntry
  else if s + 1 < n && progress.temperature.contains s then .ok .add
  else .ok .set

def temperatureColumn (n : Nat) (unrolled : Bool) (progress : Progress)
    (changes : List (Nat × α × α)) : Except Fault (List (Step α)) :=
  changes.mapM fun (s, weight, nu) => do
    return .assign 2 (temperatureEntry n unrolled s) (← temperatureForm n progress s)
      (temperatureShare weight nu)

/-! ## The species columns -/

def compositionEntry (n s j : Nat) : Expr α :=
  if s + 1 < n then .cell "jac" (s + 1 + n * (j + 1) : Nat) else .cell "J_nplusjplus" j

def compositionShare (factor : α) (derivative : Expr α) : Expr α :=
  let e := .group derivative
  .padded 1 0 (if Arithmetic.eq factor (-Arithmetic.unit) then -e
    else if Arithmetic.eq factor Arithmetic.unit then e
    else .full factor * e)

def compositionColumn (n : Nat) (progress : Progress) (changes : List (Nat × α × α)) (j : Nat)
    (weight : α) (derivative : Expr α) : Except Fault (List (Step α)) :=
  changes.mapM fun (s, w, nu) => do
    let factor := (← Arithmetic.div w weight) * Arithmetic.pointed nu
    return .assign 2 (compositionEntry n s j)
      (if progress.composition.contains s then .add else .set) (compositionShare factor derivative)

def compositionStart (species : List (Species α)) (k : Ranks) (r : Reaction Nat α) :
    Except Fault (List (Item α)) := do
  let equilibrium ←
    if r.reversible && r.reverse.isEmpty then equilibriumItemsSorted species r else pure []
  let common ← commonItems k r
  let constants ← rateConstants r
  return equilibrium ++ common.map Item.step ++ constants

def columnItems (species : List (Species α)) (progress : Progress) (k : Ranks) (r : Reaction Nat α)
    (sp : Species α) (j : Nat) : Except Fault (List (Item α)) := do
  let derivative ← speciesDerivative species k r j sp.weight
  let steps ← compositionColumn species.length progress (← changed species r) j sp.weight derivative
  return Item.consult derivative.cells :: steps.map Item.step

def compositionItems (species : List (Species α)) (progress : Progress) (k : Ranks)
    (r : Reaction Nat α) : Except Fault (List (Item α)) := do
  let start ← compositionStart species k r
  let columns ← species.dropLast.zipIdx.mapM fun (sp, j) => columnItems species progress k r sp j
  return .step (speciesRemark k.all) :: start ++ columns.flatten ++ [.step .blank]

/-! ## One reaction after the other -/

structure LoopState (α : Type) where
  progress : Progress := {}
  excess : Option (Excess α) := none
  bank : Option Accelerator.Bank := none
  deriving Inhabited

structure LoopSetting (α : Type) where
  species : List (Species α)
  reactions : List (Reaction Nat α)
  /-- Whether the statements go into a file of their own. -/
  unrolled : Bool
  deriving Inhabited

def meet (old : List Nat) (changes : List (Nat × α × α)) : List Nat :=
  old ++ (changes.map (·.1)).filter (!old.contains ·)

/-- The statements for the temperature column, with the species whose entries are written then and
what the next reaction can build its collider concentration on. -/
def temperaturePart (e : LoopSetting α) (progress : Progress) (excess : Option (Excess α)) (i : Nat)
    (r : Reaction Nat α) : Except Fault (List (Item α) × List Nat × Option (Excess α)) := do
  let (slope, writes, excess) ← temperatureItems excess (ranksAt e.reactions i) r
  if writes then
    let changes ← changed e.species r
    let steps ← temperatureColumn e.species.length e.unrolled progress changes
    return (slope ++ (steps ++ [Step.blank]).map Item.step, meet progress.temperature changes, excess)
  else return (slope, progress.temperature, excess)

/-- The species whose entries in the species columns are written after a reaction. A matrix for one
species has no such columns. -/
def compositionAfter (e : LoopSetting α) (progress : Progress) (r : Reaction Nat α) :
    Except Fault (List Nat) :=
  if e.species.length ≤ 1 then .ok progress.composition
  else do return meet progress.composition (← changed e.species r)

def reactionItems (e : LoopSetting α) (progress : Progress) (excess : Option (Excess α)) (i : Nat)
    (r : Reaction Nat α) : Except Fault (List (Item α) × Progress × Option (Excess α)) := do
  let (first, temperature, excess) ← temperaturePart e progress excess i r
  let rows ← compositionItems e.species progress (ranksAt e.reactions i) r
  let composition ← compositionAfter e progress r
  return (first ++ rows, ⟨temperature, composition⟩, excess)

def reactionStep (e : LoopSetting α) (s : LoopState α) (i : Nat) (r : Reaction Nat α) :
    Except Fault (LoopState α × List (Item α)) := do
  let uses ←
    if s.bank.isSome then sharedUses e.species.length (ranksAt e.reactions i) r else pure []
  let (items, progress, excess) ← reactionItems e s.progress s.excess i r
  let release := Item.release ((uses.map (·.1)).filter (·.1 != "conc"))
  let (bank, items) ← placeWith s.bank (.load uses :: (items ++ [release]))
  return (⟨progress, excess, bank⟩, items)

def reactionRun (e : LoopSetting α) (s : LoopState α) :
    List (Reaction Nat α × Nat) → Except Fault (LoopState α × List (Item α))
  | [] => .ok (s, [])
  | (r, i) :: rest => do
    let (s, first) ← reactionStep e s i r
    let (s, more) ← reactionRun e s rest
    return (s, first ++ more)

end Kinetics.Jacobian
