import Kinetics.Reading.MechanismFile
/-!
# Gas records

A gas record describes a mixture with its species and reactions in SI units. `readGas` converts it
to a mechanism.
-/

namespace Kinetics.Reading

structure Arrhenius (α : Type := Scalar) where
  A : α
  b : α
  E : α
  deriving Repr, Inhabited

/-- The parameters of a rate, its activation energy as a temperature. -/
def Arrhenius.toList {α : Type} (kelvin : α → α) (k : Arrhenius α) : List α := [k.A, k.b, kelvin k.E]

/-- A species of a gas record. The coefficients are the midpoint temperature, the polynomial above
it and the polynomial below it. -/
structure GasSpecies where
  name : String
  weight : Scalar
  composition : List (String × Scalar)
  lowest : Scalar
  highest : Scalar
  coefficients : List Scalar
  /-- Whether the coefficients are those of two polynomials. -/
  isTwoRange : Bool
  deriving Repr, Inhabited

inductive Broadening (α : Type := Scalar) where
  | none
  | troe (parameters : List α)
  | sri (parameters : List α)
  deriving Repr, Inhabited

inductive GasLaw (α : Type := Scalar) where
  | elementary (rate : Arrhenius α)
  | threeBody (rate : Arrhenius α)
  | falloff (low high : Arrhenius α) (broadening : Broadening α)
  /-- Chemical activation: the rate falls off towards high pressures. -/
  | activated (low high : Arrhenius α) (broadening : Broadening α)
  | plog (rates : List (α × Arrhenius α))
  | chebyshev (temperatureTerms pressureTerms : Int) (pressures temperatures : List α)
      (coefficients : List (List α))
  | unknown
  deriving Repr, Inhabited

structure GasReaction (α : Type := Scalar) where
  law : GasLaw α
  reversible : Bool
  duplicate : Bool
  reactants : List (String × α)
  products : List (String × α)
  efficiencies : List (String × α)
  /-- The efficiency of species without one of their own. -/
  defaultEfficiency : α
  deriving Repr, Inhabited

structure Gas where
  elements : List String
  atomicWeights : List Scalar
  species : List GasSpecies
  reactions : List GasReaction
  deriving Repr, Inhabited

/-- Pairs without repeated names: a repeated name keeps its first place and takes its last
value. -/
def unrepeated {β : Type} (pairs : List (String × β)) : List (String × β) :=
  pairs.foldl (fun out (name, x) =>
    if out.any (·.1 == name) then out.map fun e => if e.1 == name then (name, x) else e
    else out ++ [(name, x)]) []

def noGasLibrary : Fault :=
  .halt "Error: Cantera not installed. Cannot interpret Cantera-format mechanism.\n" (some 1)

def sevenFrom (xs : List Scalar) (i : Nat) : Except Fault (Nasa Scalar) :=
  match (xs.drop i).take 7 with
  | [a1, a2, a3, a4, a5, a6, a7] => .ok ⟨a1, a2, a3, a4, a5, a6, a7⟩
  | _ => .error .missingEntry

def convertSpecies (s : GasSpecies) : Except Fault (Species Scalar) := do
  let midpoint ← entryAt s.coefficients 0
  if !s.isTwoRange then
    throw (.halt ("Error: unsupported thermo form for species " ++ s.name ++ "\n") (some 1))
  return {
    name := s.name
    composition := unrepeated s.composition
    weight := s.weight
    high := ← sevenFrom s.coefficients 1
    low := ← sevenFrom s.coefficients 8
    lowest := s.lowest
    midpoint
    highest := s.highest }

section
variable {α : Type} [Arithmetic α]

/-- The efficiencies of species, without a default of one. -/
def GasReaction.listed (g : GasReaction α) (names : List String) : List (String × α) :=
  names.filterMap fun name =>
    match (unrepeated g.efficiencies).lookup name with
    | some x => some (name, x)
    | none =>
      if Arithmetic.eq g.defaultEfficiency Arithmetic.unit then none
      else some (name, g.defaultEfficiency)

/-- Adds the third bodies of a reaction. If only one species acts, with efficiency one, it becomes
the collider of a falloff reaction, unless it has no name; otherwise the efficiencies are listed. -/
def withColliders (names : List String) (g : GasReaction α) (r : Reaction String α) :
    Reaction String α :=
  let listed := { r with efficiencies := r.efficiencies ++ g.listed names }
  match unrepeated g.efficiencies with
  | [(name, x)] =>
    if Arithmetic.isZero g.defaultEfficiency && Arithmetic.eq x Arithmetic.one && r.falloff then
      { r with collider := if name = "" then none else some name }
    else listed
  | _ => listed

def withBroadening (count : Nat) (b : Broadening α) (r : Reaction String α) :
    Reader (Reaction String α) := do
  match b with
  | .none => return r
  | .sri parameters => return { r with sri := true, sriParameters := parameters }
  | .troe parameters =>
    let t3 ← entryAt parameters 1
    let t1 ← entryAt parameters 2
    if Arithmetic.isZero t3 || Arithmetic.isZero t1 then remark .warning (troeWarning count)
    return { r with
      troe := true
      troeParameters := (parameters.set 1 (safeTemperature t3)).set 2 (safeTemperature t1) }

def withEquation (g : GasReaction α) (A b E : α) : Reaction String α :=
  let reactants := unrepeated g.reactants
  let products := unrepeated g.products
  Reaction.elementary g.reversible (reactants.map (·.1)) (reactants.map (·.2)) (products.map (·.1))
    (products.map (·.2)) A b E

def withRate (kelvin : α → α) (g : GasReaction α) (k : Arrhenius α) : Reaction String α :=
  withEquation g k.A k.b (kelvin k.E)

def convertReaction (kelvin : α → α) (names : List String) (count : Nat) (g : GasReaction α) :
    Reader (Option (Reaction String α)) := do
  let zero : α := Arithmetic.tenths 0
  match g.law with
  | .elementary k =>
    return if Arithmetic.isZero k.A then none else some (withRate kelvin g k)
  | .threeBody k => return some (withColliders names g { withRate kelvin g k with thirdBody := true })
  | .falloff low high broadening =>
    let r := withColliders names g { withRate kelvin g high with falloff := true }
    return some (← withBroadening count broadening { r with low := low.toList kelvin })
  | .activated low high broadening =>
    let r := withColliders names g { withRate kelvin g low with falloff := true }
    return some (← withBroadening count broadening { r with high := high.toList kelvin })
  | .plog rates =>
    return some { withEquation g zero zero zero with
      plog := true
      plogRates := some (rates.map fun (p, k) => p :: k.toList kelvin) }
  | .chebyshev n m pressures temperatures coefficients =>
    return some { withEquation g zero zero zero with
      chebyshev := true
      temperatureTerms := n
      pressureTerms := m
      pressureLimits := pressures
      temperatureLimits := temperatures
      chebyshevCoefficients := some coefficients }
  | .unknown => quit "Error: unsupported reaction.\n" 1

end

def addReaction (names : List String) (rs : List (Reaction String Scalar)) (g : GasReaction) :
    Reader (List (Reaction String Scalar)) := do
  match ← convertReaction EnergyUnit.joulesPerKilomole.toKelvin names rs.length g with
  | some r => return rs ++ [{ r with duplicate := g.duplicate }]
  | none => return rs

/-- Converts a gas record. Atomic weights are taken over for elements that have none yet. -/
def readGas (gas : Option Gas) : Reader Mechanism := do
  match gas with
  | none => quit "Error: need either filename or Cantera Solution object.\n" 1
  | some g =>
    (g.elements.zip g.atomicWeights).forM fun (e, weight) => do
      let symbol := String.ofList (Text.lower e.toList)
      if ((← get).weights.get? symbol).isNone then setWeight symbol weight
    let species ← g.species.mapM fun s => (convertSpecies s : Except Fault _)
    let reactions ← g.reactions.foldlM (addReaction (g.species.map (·.name))) []
    return { elements := g.elements, species, reactions }

end Kinetics.Reading
