import Kinetics.Reading.RateLine
import Kinetics.Reading.Thermo
/-!
# Mechanism files

A mechanism file has sections of elements, species and reactions, in any order and any number, and
possibly thermodynamic data. `readMechanism` goes through its lines and then checks and completes
what it has read.
-/

namespace Kinetics.Reading

open Text

inductive Section where
  | elements
  | species
  | reactions
  deriving Repr, DecidableEq, Inhabited

structure Mechanism where
  elements : List String := []
  species : List (Species Scalar) := []
  reactions : List (Reaction String Scalar) := []
  deriving Inhabited

structure Draft extends Mechanism where
  current : Option Section := none
  unit : EnergyUnit := .calories
  last : LastLine := {}
  deriving Inhabited

/-! ## Lines -/

def cutComment (line : List Char) : List Char :=
  match find? ['!'] line with
  | some (i + 1) => line.take (i + 1)
  | _ => line

/-- What follows the keyword on its line: the text from the first occurrence of the second
field. -/
def afterKeyword (line : List Char) : Option (List Char) :=
  match fields line with
  | _ :: second :: _ => (find? second line).map line.drop
  | _ => none

def isEnd (word : List Char) : Bool := word.take 3 == "end".toList

/-- Reads the fields of an element line: symbols, and numbers that are the weights of the symbols
before them. -/
def readElements (elements : List String) (previous : List Char) :
    List (List Char) → Reader (List String)
  | [] => return elements
  | word :: rest => do
    if !word.isEmpty && word.all isLetter then
      if isEnd word then readElements elements previous rest
      else
        let name := String.ofList word
        readElements (if elements.contains name then elements else elements ++ [name]) word rest
    else
      let weight ← Number.readReal word
      setWeight (String.ofList (lower previous)) (.float weight)
      readElements elements previous rest

def addSpecies (species : List (Species Scalar)) (words : List (List Char)) :
    List (Species Scalar) :=
  words.foldl (fun species word =>
    let name := String.ofList word
    if isEnd word || species.any (·.name == name) then species
    else species ++ [Species.named name]) species

def readContent (d : Draft) (line : List Char) : Reader Draft := do
  match d.current with
  | none => return d
  | some .elements =>
    return { d with elements := ← readElements d.elements [] (dataFields false line) }
  | some .species => return { d with species := addSpecies d.species (fields line) }
  | some .reactions =>
    if line.contains '=' then
      let r ← readReactionLine d.unit line
      return { d with
        reactions := d.reactions ++ [r]
        last := { thirdBody := r.thirdBody } }
    else
      let (last, reactions) ← readAuxiliary d.unit d.last line d.reactions
      return { d with reactions, last }

def openSection (d : Draft) (s : Section) (line : List Char) : Reader Draft :=
  let d := { d with current := some s }
  match afterKeyword line with
  | some rest => readContent d rest
  | none => return d

/-- Reads a line of a file. A line with the keyword for thermodynamic data has the whole file read
as a database. -/
def readLine (file : List (List Char)) (d : Draft) (raw : List Char) : Reader Draft := do
  if isIgnored raw then return d
  let line := cutComment (strip raw)
  if opensWith "elem" line then openSection d .elements line
  else if opensWith "spec" line then openSection d .species line
  else if opensWith "reac" line then
    return { d with current := some .reactions, unit := ← sectionUnit ((fields line).drop 1) }
  else if opensWith "ther" line then
    return { d with species := ← readThermo (← get).weights file d.species }
  else if opensWith "end" line then return { d with current := none }
  else readContent d line

/-! ## Checks after the last line -/

def rowsOf {β : Type} (length : Nat) (xs : List β) : List (List β) :=
  if h : length = 0 ∨ xs = [] then []
  else xs.take length :: rowsOf length (xs.drop length)
termination_by xs.length
decreasing_by
  have := List.length_pos_iff.2 (fun h0 => h (Or.inr h0))
  simp only [List.length_drop]
  omega

def shapeCoefficients (i : Nat) (r : Reaction String Scalar) :
    Reader (Reaction String Scalar) := do
  if r.chebyshev then
    let row := (r.chebyshevCoefficients.getD []).flatten
    if (row.length : Int) ≠ r.temperatureTerms * r.pressureTerms then
      quit ("Error: incorrect number of CHEB coefficients in reaction " ++ toString i ++ "\n") 1
    else
      let first ← entryAt row 0
      let factor ← Scalar.pow (.float 0.001) (orderOf r.reactantNu - .float 1.0)
      let first := first + (← Scalar.logWith Float.log10 factor)
      if r.temperatureTerms < 0 then throw .unacceptable
      return { r with
        chebyshevCoefficients := some (rowsOf r.pressureTerms.toNat (first :: row.drop 1)) }
  else return r

def checkNames (names : List String) (i : Nat) (r : Reaction String Scalar) : Reader Unit := do
  match ((r.reactants ++ r.products).filter (!names.contains ·)).mergeSort (· ≤ ·) with
  | [] => return ()
  | unknown :: _ => do
    remark .error ("Reaction " ++ toString i ++ " contains unknown species " ++ unknown)
    quit "" (-1)

structure Tagged where
  tag : Nat
  reaction : Reaction String Scalar
  deriving Inhabited

def reverseReaction (r : Reaction String Scalar) (A b E : Scalar) : Reaction String Scalar :=
  { r with
    A, b, E
    reversible := false
    reverse := []
    reactants := r.products
    reactantNu := r.productNu
    products := r.reactants
    productNu := r.reactantNu }

/-- Splits off the reverse direction of the reaction with a tag. What is made irreversible, and
where the new reaction is inserted, goes by the first reaction that is taken for it. -/
def splitReverse (rs : List Tagged) (tag : Nat) : List Tagged :=
  match rs.find? (·.tag == tag) with
  | none => rs
  | some t =>
    match t.reaction.reverse with
    | A :: b :: E :: _ =>
      let i := rs.findIdx fun s => s.tag == tag || s.reaction.resembles t.reaction
      let rs := rs.modify i fun s =>
        { s with reaction := { s.reaction with reversible := false, reverse := [] } }
      rs.insertIdx (i + 1) ⟨rs.length, reverseReaction t.reaction A b E⟩
    | _ => rs

def splitAllReverse (rs : List (Reaction String Scalar)) : List (Reaction String Scalar) :=
  let tagged := rs.zipIdx.map fun (r, i) => Tagged.mk i r
  ((List.range rs.length).foldl splitReverse tagged).map (·.reaction)

/-- Completes species from a database if some lack data, and refuses what is still incomplete. Only
then it matters whether the database could be opened. -/
def completeSpecies (thermo : Option (Except Fault (List (List Char))))
    (species : List (Species Scalar)) :
    Reader (List (Species Scalar)) := do
  let species ←
    if species.any isWeightless then
      match thermo with
      | some lines => do readThermo (← get).weights (← lines) species
      | none =>
        quit ("Error: no thermo file specified, but species missing \ndata. Either specify file, or "
          ++ "ensure complete data in\nmechanism file with THERMO option.\n") 1
    else pure species
  match (species.filter isWeightless).map (·.name) with
  | [] => return species
  | missing => quit ("Error: missing thermo data for " ++ String.intercalate ", " missing ++ "\n") 1

def readMechanismLines (file : List (List Char))
    (thermo : Option (Except Fault (List (List Char)))) : Reader Mechanism := do
  let d ← file.foldlM (readLine file) {}
  let reactions ← d.reactions.zipIdx.mapM fun (r, i) => shapeCoefficients i r
  reactions.zipIdx.forM fun (r, i) => checkNames (d.species.map (·.name)) i r
  let species ← completeSpecies thermo d.species
  return { elements := d.elements, species, reactions := splitAllReverse reactions }

/-- Reads a mechanism from the text of its file and of a separate database, which may have failed
to open. -/
def readMechanism (text : String) (thermo : Option (Except Fault String)) : Reader Mechanism :=
  readMechanismLines (Text.lines text) (thermo.map (·.map Text.lines))

end Kinetics.Reading
