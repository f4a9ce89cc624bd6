import Kinetics.Reading.Equation
import Kinetics.Reading.Units
/-!
# Lines of reactions

A reaction starts with a line that holds its equation and three Arrhenius parameters. Auxiliary
lines that follow it, each with a keyword in front, complete the rate law of the reaction read
last.
-/

namespace Kinetics.Reading

open Text

def numberIn (words : List (List Char)) (i : Nat) : Except Fault Scalar := do
  return .float (← Number.readReal (← entryAt words i))

/-- The field that stands `back` places before the end of `words`. Counted beyond the start, it
wraps once around the list. -/
def wordFromEnd (words : List (List Char)) (back : Nat) : Except Fault (List Char) :=
  if back ≤ words.length then entryAt words (words.length - back)
  else if back ≤ 2 * words.length then entryAt words (2 * words.length - back)
  else .error .missingEntry

/-- Reads a reaction line. The equation is what stands before the first occurrence of the text of
the first parameter. -/
def readReactionLine (unit : EnergyUnit) (line : List Char) :
    Except Fault (Reaction String Scalar) := do
  let words := fields line
  let factor ← wordFromEnd words 3
  let A ← Number.readReal factor
  let b ← Number.readReal (← wordFromEnd words 2)
  let E ← Number.readReal (← wordFromEnd words 1)
  let equation ← readEquation (strip (line.take ((find? factor line).getD 0)))
  let converted ← convertRate (.float A) equation.reactants.nu equation.thirdBody
  let r := Reaction.elementary equation.reversible equation.reactants.names equation.reactants.nu
    equation.products.names equation.products.nu converted (.float b) (unit.toKelvin (.float E))
  return { r with
    thirdBody := equation.thirdBody
    falloff := equation.falloff
    collider := equation.collider }

def dataFields (commas : Bool) (line : List Char) : List (List Char) :=
  let line := replaceChar '/' ' ' line
  fields (if commas then replaceChar ',' ' ' line else line)

def threeNumbers (words : List (List Char)) : Except Fault (Scalar × Scalar × Scalar) := do
  return (← numberIn words 1, ← numberIn words 2, ← numberIn words 3)

def changeLast (f : Reaction String Scalar → Reaction String Scalar)
    (rs : List (Reaction String Scalar)) : Except Fault (List (Reaction String Scalar)) := do
  let r ← lastEntry rs
  return rs.dropLast ++ [f r]

structure LastLine where
  /-- Whether its equation showed a third body without falloff. -/
  thirdBody : Bool := false
  /-- Whether a line with Chebyshev coefficients was read. -/
  chebyshev : Bool := false
  deriving Repr, DecidableEq, Inhabited

/-- Parameters of the reverse direction; with a zero factor there is no reverse direction. -/
def readReverse (unit : EnergyUnit) (last : LastLine) (line : List Char)
    (rs : List (Reaction String Scalar)) : Except Fault (List (Reaction String Scalar)) := do
  let (A, b, E) ← threeNumbers (dataFields true line)
  let r ← lastEntry rs
  let A ← convertRate A r.productNu last.thirdBody
  changeLast (fun r =>
    if Arithmetic.isZero A then { r with reversible := false }
    else { r with reverse := r.reverse ++ [A, b, unit.toKelvin E] }) rs

/-- Parameters of a pressure limit: `order` gives the order of its factor, `add` puts them into the
reaction. -/
def readLimit (order : Scalar → Scalar) (add : List Scalar → Reaction String Scalar → Reaction String Scalar)
    (unit : EnergyUnit) (line : List Char) (rs : List (Reaction String Scalar)) :
    Except Fault (List (Reaction String Scalar)) := do
  let (A, b, E) ← threeNumbers (dataFields true line)
  let r ← lastEntry rs
  let A ← convertFactor A (order (orderOf r.reactantNu))
  changeLast (add [A, b, unit.toKelvin E]) rs

def readLow := readLimit id fun xs r => { r with low := r.low ++ xs }

def readHigh := readLimit (· - .float 2.0) fun xs r => { r with high := r.high ++ xs }

def tinyTemperature {α : Type} [Arithmetic α] : α := Arithmetic.ofDecimal ⟨1, 0, -30⟩

def troeWarning (count : Nat) : String :=
  "Troe parameters in reaction " ++ toString count ++ " modified to avoid division by zero!."

def safeTemperature {α : Type} [Arithmetic α] (x : α) : α :=
  if Arithmetic.isZero x then tinyTemperature else x

def readTroe (line : List Char) (rs : List (Reaction String Scalar)) :
    Reader (List (Reaction String Scalar)) := do
  let words := dataFields true line
  let _ ← lastEntry rs
  let (a, t3, t1) ← threeNumbers words
  if Arithmetic.isZero t3 || Arithmetic.isZero t1 then remark .warning (troeWarning rs.length)
  let fourth ← if 4 < words.length then do pure [← numberIn words 4] else pure []
  changeLast (fun r => { r with
    troe := true
    troeParameters := r.troeParameters ++ [a, safeTemperature t3, safeTemperature t1] ++ fourth }) rs

def readSri (line : List Char) (rs : List (Reaction String Scalar)) :
    Except Fault (List (Reaction String Scalar)) := do
  let words := dataFields true line
  let _ ← lastEntry rs
  let (a, b, c) ← threeNumbers words
  let more ←
    if 4 < words.length then do pure [← numberIn words 4, ← numberIn words 5] else pure []
  changeLast (fun r => { r with
    sri := true
    sriParameters := r.sriParameters ++ [a, b, c] ++ more }) rs

def numbersFrom (words : List (List Char)) (i : Nat) : Except Fault (List Scalar) :=
  (words.drop i).mapM fun w => do return .float (← Number.readReal w)

def addCoefficients (xs : List Scalar) (r : Reaction String Scalar) : Reaction String Scalar :=
  { r with chebyshevCoefficients := some [(r.chebyshevCoefficients.getD []).flatten ++ xs] }

/-- Chebyshev coefficients. The first line starts with the numbers of terms; a reaction with
Chebyshev coefficients does not count as falloff. -/
def readChebyshev (last : LastLine) (line : List Char) (rs : List (Reaction String Scalar)) :
    Except Fault (List (Reaction String Scalar)) := do
  let _ ← lastEntry rs
  let words := dataFields false line
  if last.chebyshev then
    let xs ← numbersFrom words 1
    changeLast (fun r => addCoefficients xs { r with chebyshev := true }) rs
  else
    let n ← Number.readWhole (← entryAt words 1)
    let m ← Number.readWhole (← entryAt words 2)
    let xs ← numbersFrom words 3
    changeLast (fun r => addCoefficients xs { r with
      chebyshev := true
      falloff := false
      temperatureTerms := n
      pressureTerms := m
      chebyshevCoefficients := none }) rs

def limits (words : List (List Char)) (i : Nat) : Except Fault (List Scalar) := do
  return [← numberIn words i, ← numberIn words (i + 1)]

def pressures (words : List (List Char)) (i : Nat) : Except Fault (List Scalar) := do
  return (← limits words i).map (· * atmosphere)

def fourthIs (keyword : String) (words : List (List Char)) : Except Fault Bool := do
  return String.ofList (lower (← entryAt words 3)) == keyword

/-- Limits of Chebyshev coefficients. -/
structure Bounds where
  keyword : String
  read : List (List Char) → Nat → Except Fault (List Scalar)
  put : List Scalar → Reaction String Scalar → Reaction String Scalar

def pressureBounds : Bounds := ⟨"pcheb", pressures, fun xs r => { r with pressureLimits := xs }⟩

def temperatureBounds : Bounds := ⟨"tcheb", limits, fun xs r => { r with temperatureLimits := xs }⟩

/-- Reads limits of one kind, with those of the other kind on the same line or not. -/
def readBounds (own other : Bounds) (line : List Char) (rs : List (Reaction String Scalar)) :
    Except Fault (List (Reaction String Scalar)) := do
  let words := dataFields false line
  let rs ← changeLast (own.put (← own.read words 1)) rs
  if ← fourthIs other.keyword words then changeLast (other.put (← other.read words 4)) rs
  else return rs

/-- A support of an interpolation between pressures. A reaction with supports does not count as
falloff. -/
def readSupport (unit : EnergyUnit) (line : List Char) (rs : List (Reaction String Scalar)) :
    Except Fault (List (Reaction String Scalar)) := do
  let r ← lastEntry rs
  match ← numbersFrom ((dataFields false line).take 5) 1 with
  | p :: A :: b :: E :: _ =>
    let A ← convertFactor A (orderOf r.reactantNu - .float 1.0)
    let support := [p * atmosphere, A, b, unit.toKelvin E]
    changeLast (fun r =>
      if r.plog then { r with plogRates := some (r.plogRates.getD [] ++ [support]) }
      else { r with plog := true, falloff := false, plogRates := some [support] }) rs
  | _ => throw .missingEntry

def readEfficiencies (rs : List (Reaction String Scalar)) :
    List (List Char) → Except Fault (List (Reaction String Scalar))
  | [] => .ok rs
  | [_] => .error .missingEntry
  | name :: value :: rest => do
    let x ← Number.readReal value
    let rs ← changeLast (fun r => { r with
      efficiencies := r.efficiencies ++ [(String.ofList name, .float x)] }) rs
    readEfficiencies rs rest

/-- Reads an auxiliary line. Its first three characters say what it holds; a line without keyword
holds efficiencies. -/
def readAuxiliary (unit : EnergyUnit) (last : LastLine) (line : List Char)
    (rs : List (Reaction String Scalar)) : Reader (LastLine × List (Reaction String Scalar)) := do
  match String.ofList (lower (line.take 3)) with
  | "dup" => return (last, ← changeLast (fun r => { r with duplicate := true }) rs)
  | "rev" => return (last, ← readReverse unit last line rs)
  | "low" => return (last, ← readLow unit line rs)
  | "hig" => return (last, ← readHigh unit line rs)
  | "tro" => return (last, ← readTroe line rs)
  | "sri" => return (last, ← readSri line rs)
  | "che" => return ({ last with chebyshev := true }, ← readChebyshev last line rs)
  | "pch" => return (last, ← readBounds pressureBounds temperatureBounds line rs)
  | "tch" => return (last, ← readBounds temperatureBounds pressureBounds line rs)
  | "plo" => return (last, ← readSupport unit line rs)
  | _ => return (last, ← readEfficiencies rs (dataFields false line))

end Kinetics.Reading
