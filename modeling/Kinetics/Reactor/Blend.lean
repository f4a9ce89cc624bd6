import Kinetics.Reactor.Table
import Kinetics.Scalar
import Kinetics.Text.Case
/-!
# Blending fuel and oxidizer

The mole fractions of a mixture of fuel and oxidizer follow from the equivalence ratio: the
oxidizer is added in the amount that burns the fuel to the given products, the fuel in that amount
times the ratio. All elements of fuel and oxidizer must appear in the products and conversely.
-/

namespace Kinetics.Reactor

variable {α : Type}

structure Elements (α : Type) where
  names : List String
  atoms : String → String → α

def elementKey (element : String) : String := String.ofList (Text.upper element.toList)

section
variable [Arithmetic α]

def normalized (amounts : List (String × α)) : Except Fault (List (String × α)) := do
  let total := Arithmetic.sum (amounts.map (·.2))
  if Arithmetic.lt Arithmetic.unit total then
    amounts.mapM fun (s, x) => return (s, ← Arithmetic.div x total)
  else return amounts

def countOf (x : α) : Except Fault Int :=
  if !Arithmetic.eq x x then .error .notNumeric
  else if !Arithmetic.isZero (x - x) then .error .overflow
  else .ok (Arithmetic.wholePart x)

def Elements.each {β : Type} (g : Elements α) (species : List β) : List (β × String) :=
  species.flatMap fun s => g.names.map fun e => (s, e)

/-! ## Atoms -/

abbrev ProductAtoms := List (String × List (String × Int))

/-- The atoms of an element in each of the products. -/
def ProductAtoms.entry (t : ProductAtoms) (element : String) : List (String × Int) :=
  (t.lookup element).getD []

def productAtoms (g : Elements α) (products : List String) : Except Fault ProductAtoms :=
  (g.each products).foldlM (fun t (s, e) => do
    let key := elementKey e
    let count ← countOf (g.atoms s e)
    return assign key (assign s count (ProductAtoms.entry t key)) t) []

def countSum (xs : List Int) : Int := xs.foldl (· + ·) 0

def ProductAtoms.total (t : ProductAtoms) (element : String) : Int :=
  countSum ((t.entry element).map (·.2))

/-- The number of missing oxygen atoms, weighted; zero if the products are burnt completely. -/
def ProductAtoms.oxidationState (t : ProductAtoms) : Int :=
  4 * t.total "C" + t.total "H" - 2 * t.total "O"

/-- The atoms of each element in a mixture. The count starts again at each species unless the
element is named by the key under which it is counted. -/
def mixtureAtoms (g : Elements α) (mixture : List (String × α)) : List (String × α) :=
  (g.each mixture).foldl (fun t ((s, x), e) =>
    let key := elementKey e
    let before := if t.any (·.1 == e) then (t.lookup key).getD Arithmetic.zero else Arithmetic.zero
    assign key (before + g.atoms s e * x) t) []

def atomsOf (t : List (String × α)) (element : String) : α :=
  (t.lookup element).getD Arithmetic.zero

def countedAtoms (t : List (String × α)) (element : String) : Except Fault α :=
  match t.lookup element with
  | some x => .ok x
  | none => .error (.unknownName element)

/-- Whether an element is in the products but in neither mixture, or the other way round. -/
def unmatched (fuel oxidizer : List (String × α)) (element : String) (count : Int) :
    Except Fault Bool := do
  if 0 < count then
    if Arithmetic.isZero (← countedAtoms fuel element) then
      return Arithmetic.isZero (← countedAtoms oxidizer element)
    return false
  if count = 0 then
    if Arithmetic.isPositive (← countedAtoms fuel element) then return true
    return Arithmetic.isPositive (← countedAtoms oxidizer element)
  return false

def unmatchedMessage : String :=
  "Error: Must specify all elements in the fuel + oxidizer in the complete products and vice-versa\n"

def checkElements (products : ProductAtoms) (fuel oxidizer : List (String × α)) :
    Except Fault Unit :=
  products.forM fun (e, _) => do
    if ← unmatched fuel oxidizer e (products.total e) then
      throw (.halt unmatchedMessage (some 1))

/-! ## Fractions -/

/-- The oxygen atoms of the products that hold an element, for each atom of the element. -/
def oxygenPerAtom (products : ProductAtoms) (element : String) : Except Fault α := do
  let total := products.total element
  if total ≤ 0 then return Arithmetic.zero
  let holding := (products.entry element).filter (0 < ·.2)
  let oxygen ← holding.mapM fun (s, _) => do countedAtoms (← countedAtoms products "O") s
  Arithmetic.div (Arithmetic.ofInt (countSum oxygen)) (Arithmetic.ofInt total)

def oxidizerAmount (products : ProductAtoms) (fuel oxidizer : List (String × α)) :
    Except Fault α := do
  let carbon ← oxygenPerAtom products "C"
  let hydrogen ← oxygenPerAtom products "H"
  let needed := atomsOf fuel "C" * carbon + atomsOf fuel "H" * hydrogen - atomsOf fuel "O"
  Arithmetic.div needed (atomsOf oxidizer "O")

def fractionsOf (ratio amount : α) (fuel oxidizer : List (String × α)) :
    Except Fault (List (String × α)) := do
  let total := Arithmetic.sum (oxidizer.map (amount * ·.2))
    + Arithmetic.sum (fuel.map (ratio * ·.2))
  let first ← oxidizer.mapM fun (s, x) => return (s, ← Arithmetic.div (x * amount) total)
  let second ← fuel.mapM fun (s, x) => return (s, ← Arithmetic.div (x * ratio) total)
  return first ++ second

structure Blend (α : Type) where
  fuel : List (String × α)
  oxidizer : List (String × α)
  /-- Whether the products are not burnt completely, which is worth a warning. -/
  incomplete : Bool
  /-- The mole fractions of the species, those of the oxidizer first. -/
  fractions : Except Fault (List (String × α))

def blend (g : Elements α) (ratio : α) (fuel oxidizer : List (String × α))
    (products : List String) : Blend α :=
  let fuel' := (normalized fuel).toOption.getD fuel
  let oxidizer' := (normalized oxidizer).toOption.getD oxidizer
  let burnt := productAtoms g products
  { fuel := fuel'
    oxidizer := oxidizer'
    incomplete := (burnt.toOption.map fun b => b.oxidationState != 0).getD false
    fractions := do
      let burnt ← burnt
      let fuelAtoms := mixtureAtoms g fuel'
      let oxidizerAtoms := mixtureAtoms g oxidizer'
      checkElements burnt fuelAtoms oxidizerAtoms
      let amount ← oxidizerAmount burnt fuelAtoms oxidizerAtoms
      fractionsOf ratio amount fuel' oxidizer' }

end

def Blend.warning (b : Blend α) : String :=
  if b.incomplete then "Warning: One or more products of incomplete combustion were specified.\n"
  else ""

def fractionsText (fractions : List (String × Scalar)) : String :=
  String.intercalate "," (fractions.map fun (s, x) => s ++ ":" ++ x.text .shortest)

end Kinetics.Reactor
