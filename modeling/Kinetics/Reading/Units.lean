import Kinetics.Mechanism.Reaction
import Kinetics.Reading.Session
import Kinetics.Text.Case
import Kinetics.Text.Slice
/-!
# Units of rate parameters

Activation energies become temperatures, and factors based on cubic centimetres and moles become
factors based on cubic metres and kilomoles.
-/

namespace Kinetics.Reading

inductive EnergyUnit where
  | kelvins
  | evolts
  | calories
  | joulesPerKilomole
  | kilocalories
  | joules
  | kilojoules
  deriving Repr, DecidableEq, Inhabited

namespace EnergyUnit

def names : List (String × EnergyUnit) :=
  [("kelvins", kelvins), ("evolts", evolts), ("cal/mole", calories),
    ("joules/kmole", joulesPerKilomole), ("kcal/mole", kilocalories), ("joules/mole", joules),
    ("kjoules/mole", kilojoules)]

def molarGas : Float := 8.3144621

def factor : EnergyUnit → Float
  | kelvins => 1.0
  | evolts => 11595.0
  | calories => 4.184 / molarGas
  | kilocalories => 4184.0 / molarGas
  | joules => 1.0 / molarGas
  | kilojoules => 1000.0 / molarGas
  | joulesPerKilomole => 1.0 / (molarGas * 1000.0)

def toKelvin (u : EnergyUnit) (E : Scalar) : Scalar := E * .float u.factor

end EnergyUnit

inductive AmountUnit where
  | moles
  | molecules
  deriving Repr, DecidableEq, Inhabited

def AmountUnit.names : List (String × AmountUnit) := [("moles", moles), ("molecules", molecules)]

def readUnits : List (List Char) → AmountUnit → EnergyUnit → Reader (AmountUnit × EnergyUnit)
  | [], amount, energy => return (amount, energy)
  | word :: rest, amount, energy => do
    let name := String.ofList (Text.lower word)
    match AmountUnit.names.lookup name, EnergyUnit.names.lookup name with
    | some u, _ => readUnits rest u energy
    | none, some u => readUnits rest amount u
    | none, none => do
      say "Error: unsupported units on REACTION line.\n"
      throw .wrongKind

/-- The energy unit of a section of reactions. Amounts can only be given in moles. -/
def sectionUnit (words : List (List Char)) : Reader EnergyUnit := do
  let (amount, energy) ← readUnits words .moles .calories
  match amount with
  | .moles => return energy
  | .molecules => throw (.unsupported "Molecules units not supported, sorry.")

def lastPower : Float := 102.75157185330558

def firstPower : Float := -107.86908177959326

def thousandTo (power : Float) : Float :=
  match (List.range 8).find? (fun n : Nat => Scalar.floatOfInt n == power) with
  | some n => Float.ofScientific 1 false (3 * n)
  | none => Float.pow 1000.0 power

def convertFactor (A power : Scalar) : Except Fault Scalar :=
  let power := power.toFloat
  if power.isFinite && lastPower < power then .error .overflow
  else if power < firstPower then .error .divisionByZero
  else .ok (.float (A.toFloat / thousandTo power))

def orderOf (nu : List Scalar) : Scalar := Arithmetic.sum nu

/-- The factor of a rate law whose order is that of the equation, plus one for a third body. -/
def convertRate (A : Scalar) (nu : List Scalar) (thirdBody : Bool) : Except Fault Scalar :=
  if thirdBody then convertFactor A (orderOf nu) else convertFactor A (orderOf nu - .float 1.0)

end Kinetics.Reading
