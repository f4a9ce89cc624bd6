import Kinetics.Mechanism.Reaction
import Kinetics.Mechanism.Element
import Kinetics.Number.Numeral
import Kinetics.Scalar
/-!
# Thermodynamic databases

A database starts at a line with the word `thermo`, may give common temperatures on the next line,
and then has entries of four lines with fixed columns. Reading stops at a line that starts with
`end` or when every species has a weight.
-/

namespace Kinetics.Reading

open Text

def isIgnored (line : List Char) : Bool :=
  match stripLeft line with
  | [] => true
  | c :: _ => c = '!'

def opensWith (word : String) (line : List Char) : Bool :=
  lower (line.take word.length) == word.toList

def readNumbers (s : List Char) : Except Fault (List Float) := (fields s).mapM Number.readReal

def afterOpening : List (List Char) → Option (List (List Char))
  | [] => none
  | line :: rest =>
    if !isIgnored line && occurs "thermo".toList (lower line) then some rest else afterOpening rest

def commonTemperatures (lines : List (List Char)) :
    Except Fault (Option (List Float) × List (List Char)) := do
  let line := lines.headD []
  match fields line with
  | [] => throw .missingEntry
  | word :: _ =>
    if word.head?.any isDigit then return (some (← readNumbers line), lines.drop 1)
    else return (none, lines)

def entryName (line : List Char) : List Char :=
  let name := strip (slice line 0 18)
  match find? [' '] name with
  | some i => name.take i
  | none => name

def truncate (x : Float) : Except Fault Int :=
  if x.isNaN then .error .unacceptable
  else if x.isInf then .error .overflow
  else .ok (Scalar.wholePart (.float x))

def addElement (weights : Weights Scalar) (s : Species Scalar) (field : List Char) :
    Except Fault (Species Scalar) := do
  let element := strip (field.take 2)
  if element.isEmpty || element == ['0'] then return s
  else
    let count : Scalar := .int (← truncate (← Number.readReal (strip (field.drop 2))))
    let symbol := String.ofList (lower element)
    match weights.get? symbol with
    | some weight =>
      return { s with
        composition := s.composition ++ [(String.ofList element, count)]
        weight := s.weight + count * weight }
    | none => throw (.unknownName symbol)

def entryTemperatures (common : Option (List Float)) (line : List Char) :
    Except Fault (Float × Float × Float) := do
  let own ← readNumbers (slice line 45 74)
  let low ← entryAt own 0
  let high ← entryAt own 1
  if own.length = 3 then return (low, ← entryAt own 2, high)
  else
    match common with
    | some temperatures => return (low, ← entryAt temperatures 1, high)
    | none => throw (.unset "temperatures")

def coefficientsOf (count : Nat) (line : List Char) : Except Fault (List Scalar) :=
  let parts := pieces 15 (slice line 0 75)
  (List.range count).mapM fun i => do return .float (← Number.readReal (← entryAt parts i))

def entryPolynomials (second third fourth : List Char) :
    Except Fault (Nasa Scalar × Nasa Scalar) := do
  let xs ← coefficientsOf 5 second
  let ys ← coefficientsOf 5 third
  let zs ← coefficientsOf 4 fourth
  match xs, ys, zs with
  | [a1, a2, a3, a4, a5], [a6, a7, b1, b2, b3], [b4, b5, b6, b7] =>
    return (⟨a1, a2, a3, a4, a5, a6, a7⟩, ⟨b1, b2, b3, b4, b5, b6, b7⟩)
  | _, _, _ => throw .missingEntry

def readEntry (weights : Weights Scalar) (common : Option (List Float)) (s : Species Scalar)
    (first second third fourth : List Char) : Except Fault (Species Scalar) := do
  let s ← (pieces 5 (slice first 24 44)).foldlM (addElement weights) s
  let (lowest, midpoint, highest) ← entryTemperatures common first
  let (high, low) ← entryPolynomials second third fourth
  return { s with
    lowest := .float lowest, midpoint := .float midpoint, highest := .float highest, high, low }

def isWeightless (s : Species Scalar) : Bool := Arithmetic.isZero s.weight

/-- Reads entries for the species that lack a weight; an entry of four lines for any other name is
passed over. Only the first entry of a name counts. -/
def readEntries (weights : Weights Scalar) (common : Option (List Float)) :
    List (List Char) → List (Species Scalar) → Except Fault (List (Species Scalar))
  | [], _ => .error .truncated
  | line :: rest, species =>
    if opensWith "end" line then .ok species
    else if isIgnored line then readEntries weights common rest species
    else
      let name := String.ofList (entryName line)
      match species.findIdx? (·.name == name) with
      | none => readEntries weights common (rest.drop 3) species
      | some i => do
        let s ← entryAt species i
        if isWeightless s then
          let s ← readEntry weights common s line (rest.headD []) ((rest.drop 1).headD [])
            ((rest.drop 2).headD [])
          let species := species.set i s
          if species.any isWeightless then readEntries weights common (rest.drop 3) species
          else return species
        else readEntries weights common (rest.drop 3) species
termination_by lines => lines.length
decreasing_by
  all_goals
    simp only [List.length_cons, List.length_drop]
    omega

def readThermo (weights : Weights Scalar) (lines : List (List Char))
    (species : List (Species Scalar)) : Except Fault (List (Species Scalar)) :=
  match afterOpening lines with
  | none => .error .truncated
  | some rest => do
    let (common, entries) ← commonTemperatures rest
    readEntries weights common entries species

end Kinetics.Reading
