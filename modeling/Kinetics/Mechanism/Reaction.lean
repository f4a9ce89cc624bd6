import Kinetics.Constants
import Kinetics.Mechanism.Species
/-!
# Reactions

A reaction refers to species by references of a type `σ`: names while a mechanism is read,
positions in the species list once it is complete.
-/

namespace Kinetics

structure Reaction (σ α : Type) where
  reversible : Bool
  reactants : List σ
  /-- Stoichiometric coefficients of the reactants, in the same order. -/
  reactantNu : List α
  products : List σ
  /-- Stoichiometric coefficients of the products, in the same order. -/
  productNu : List α
  /-- Pre-exponential factor, temperature exponent and activation temperature. -/
  A : α
  b : α
  E : α
  /-- Arrhenius parameters of the reverse direction, if they are given. -/
  reverse : List α
  duplicate : Bool
  thirdBody : Bool
  efficiencies : List (σ × α)
  falloff : Bool
  /-- The one species that acts as third body of a falloff reaction. -/
  collider : Option σ
  low : List α
  high : List α
  troe : Bool
  troeParameters : List α
  sri : Bool
  sriParameters : List α
  /-- Whether the rate is a bivariate Chebyshev polynomial. -/
  chebyshev : Bool
  /-- Numbers of coefficients in temperature and in pressure. -/
  temperatureTerms : Int
  pressureTerms : Int
  pressureLimits : List α
  temperatureLimits : List α
  /-- Chebyshev coefficients, one list for each temperature term. -/
  chebyshevCoefficients : Option (List (List α))
  /-- Whether the rate is interpolated between pressures. -/
  plog : Bool
  plogRates : Option (List (List α))
  deriving Repr, Inhabited

def entryAt {β : Type} (xs : List β) (i : Nat) : Except Fault β :=
  match xs[i]? with
  | some x => .ok x
  | none => .error .missingEntry

def lastEntry {β : Type} (xs : List β) : Except Fault β :=
  match xs.getLast? with
  | some x => .ok x
  | none => .error .missingEntry

namespace Reaction

variable {σ α : Type}

def elementary [Arithmetic α] (reversible : Bool) (reactants : List σ) (reactantNu : List α)
    (products : List σ) (productNu : List α) (A b E : α) : Reaction σ α where
  reversible := reversible
  reactants := reactants
  reactantNu := reactantNu
  products := products
  productNu := productNu
  A := A
  b := b
  E := E
  reverse := []
  duplicate := false
  thirdBody := false
  efficiencies := []
  falloff := false
  collider := none
  low := []
  high := []
  troe := false
  troeParameters := []
  sri := false
  sriParameters := []
  chebyshev := false
  temperatureTerms := 0
  pressureTerms := 0
  pressureLimits :=
    [Arithmetic.ofDecimal ⟨1, 3, 0⟩ * atmosphere, Arithmetic.tenths 1000 * atmosphere]
  temperatureLimits := [Arithmetic.tenths 3000, Arithmetic.tenths 25000]
  chebyshevCoefficients := none
  plog := false
  plogRates := none

def isModified (r : Reaction σ α) : Bool := r.thirdBody || r.falloff

/-- The coefficient at the first position of a species in one side of the equation. -/
def coefficient [BEq σ] (species : List σ) (nu : List α) (s : σ) : Except Fault α :=
  match species.idxOf? s with
  | some i => entryAt nu i
  | none => .error .notListed

/-- The net stoichiometric coefficient of a species; the count zero if it does not take part or
if both sides cancel. -/
def net [BEq σ] [Arithmetic α] (r : Reaction σ α) (s : σ) : Except Fault α :=
  if r.products.contains s then
    if r.reactants.contains s then do
      let nu := (← coefficient r.products r.productNu s) - (← coefficient r.reactants r.reactantNu s)
      return if Arithmetic.isZero nu then Arithmetic.zero else nu
    else coefficient r.products r.productNu s
  else if r.reactants.contains s then do
    return -(← coefficient r.reactants r.reactantNu s)
  else .ok Arithmetic.zero

def changesLast [Arithmetic α] (n : Nat) (r : Reaction Nat α) : Except Fault Bool :=
  if n = 0 || !(r.reactants ++ r.products).contains (n - 1) then .ok false
  else do return !Arithmetic.isZero (← r.net (n - 1))

open Species (covered agree) in
/-- Whether a reaction is taken for another one: flags and single values agree, and what stands in
its lists is found in the lists of the other. -/
def resembles [BEq σ] [Arithmetic α] (r s : Reaction σ α) : Bool :=
  r.reversible == s.reversible
    && covered (· == ·) r.reactants s.reactants
    && covered Arithmetic.eq r.reactantNu s.reactantNu
    && covered (· == ·) r.products s.products
    && covered Arithmetic.eq r.productNu s.productNu
    && Arithmetic.eq r.A s.A && Arithmetic.eq r.b s.b && Arithmetic.eq r.E s.E
    && covered Arithmetic.eq r.reverse s.reverse
    && r.duplicate == s.duplicate
    && r.thirdBody == s.thirdBody
    && covered (fun x y => x.1 == y.1 && Arithmetic.eq x.2 y.2) r.efficiencies s.efficiencies
    && r.falloff == s.falloff
    && r.collider == s.collider
    && covered Arithmetic.eq r.low s.low
    && covered Arithmetic.eq r.high s.high
    && r.troe == s.troe
    && covered Arithmetic.eq r.troeParameters s.troeParameters
    && r.sri == s.sri
    && covered Arithmetic.eq r.sriParameters s.sriParameters
    && r.chebyshev == s.chebyshev
    && r.temperatureTerms == s.temperatureTerms
    && r.pressureTerms == s.pressureTerms
    && covered Arithmetic.eq r.pressureLimits s.pressureLimits
    && covered Arithmetic.eq r.temperatureLimits s.temperatureLimits
    && (match r.chebyshevCoefficients, s.chebyshevCoefficients with
      | none, none => true
      | some x, some y => agree (agree Arithmetic.eq) x y
      | _, _ => false)
    && r.plog == s.plog
    && (match r.plogRates, s.plogRates with
      | none, none => true
      | some x, some y => covered (agree Arithmetic.eq) x y
      | some x, none => x.isEmpty
      | none, some _ => false)

def mapSpecies {τ : Type} (f : σ → Except Fault τ) (r : Reaction σ α) :
    Except Fault (Reaction τ α) := do
  let reactants ← r.reactants.mapM f
  let products ← r.products.mapM f
  let efficiencies ← r.efficiencies.mapM fun (s, x) => do return (← f s, x)
  let collider ← match r.collider with
    | some s => do pure (some (← f s))
    | none => pure none
  return { r with reactants, products, efficiencies, collider }

end Reaction

def speciesIndex (names : List String) (name : String) : Except Fault Nat :=
  match names.reverse.idxOf? name with
  | some i => .ok (names.length - 1 - i)
  | none => .error (.unknownName name)

def indexReactions {α : Type} (names : List String) (reactions : List (Reaction String α)) :
    Except Fault (List (Reaction Nat α)) :=
  reactions.mapM (·.mapSpecies (speciesIndex names))

end Kinetics
