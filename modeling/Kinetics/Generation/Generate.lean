import Kinetics.Emit.LaunchBounds
import Kinetics.Emit.MassMole
import Kinetics.Emit.MechanismSource
import Kinetics.Emit.PressureModification
import Kinetics.Emit.SpeciesRates
import Kinetics.Emit.Thermodynamics
import Kinetics.Generation.LastSpecies
import Kinetics.Jacobian.Files
import Kinetics.Jacobian.SparseProduct
import Kinetics.Ordering.LastSpecies
import Kinetics.Reading.Gas
/-!
# Generating code

Reads a mechanism, brings its species and reactions into the order of the code, and writes all
source files into a folder.
-/

namespace Kinetics.Generation

open Workspace Code

structure Settings where
  language : String
  initial : String := ""
  blocks : Int := 8
  threads : Int := 64
  unshared : Bool := false
  /-- Whether the accelerator prefers cache to shared memory. -/
  preferCache : Bool := true
  last : Option String := none
  skipJacobian : Bool := false
  differentiable : Bool := false
  build : String := "./out/"
  /-- Whether to look for orders that suit the cache, even if there is a kept result. -/
  optimize : Bool := false
  force : Bool := false
  deriving Repr, Inhabited

inductive Input where
  | absent
  /-- A mechanism file and a file with thermodynamic data. -/
  | file (path : String) (thermo : Option String)
  | gas (record : Reading.Gas)
  deriving Repr, Inhabited

structure Splitting where
  rates : Int := 250
  jacobian : Jacobian.Limits
  deriving Repr, Inhabited

structure Splittings where
  host : Splitting := { jacobian := .host }
  device : Splitting := { jacobian := .device }
  deriving Repr, Inhabited

def Splittings.select (s : Splittings) (l : Language) : Splitting :=
  if l == .cuda then s.device else s.host

/-! ## Reading -/

def Input.name : Input → String
  | .file path _ => path
  | _ => "None"

def isGasPath (path : String) : Bool :=
  [".cti", ".xml"].any fun ending => Text.startsWith ending.toList.reverse path.toList.reverse

def Input.load (i : Input) : Job Reading.Mechanism := do
  let m ← match i with
    | .absent => throw (.broken "No mechanism specified!")
    | .gas g => Job.reading (Reading.readGas (some g))
    | .file path thermo =>
      if isGasPath path then throw Reading.noGasLibrary
      let text ← Job.readFile path
      let here := (← read).here
      let folder := (← get).folder
      Job.reading (Reading.readMechanism text ((thermo.filter (!·.isEmpty)).map (folder.read here ·)))
  if m.species.isEmpty then Job.quit ("No species found in file: " ++ i.name) 3
  if m.reactions.isEmpty then Job.quit ("No reactions found in file: " ++ i.name) 3
  return m

/-! ## Ordering -/

structure Arrangement where
  species : List (Species Scalar)
  reactions : List (Reaction String Scalar)
  order : Emit.SpeciesOrder
  reactionMap : List Int
  deriving Inhabited

def arrange (s : Settings) (m : Reading.Mechanism) (last : Nat) : Job Arrangement := do
  if s.optimize then
    let o ← Job.optimize s.build fun src =>
      Ordering.optimize src {} m.species m.reactions last s.force
    return {
      species := o.species
      reactions := o.reactions
      order := {
        forward := o.speciesForward, backward := o.speciesBackward.map Int.ofNat
        optimized := true, last := some last }
      reactionMap := o.reactionsForward.map Int.ofNat }
  else
    let (forward, backward) ← Ordering.lastSpeciesMaps m.species.length last
    let species ← (forward.mapM (entryAt m.species) : Except Fault _)
    return {
      species
      reactions := m.reactions
      order := {
        forward := forward.map Int.ofNat, backward := backward.map Int.ofNat
        optimized := false, last := some last }
      reactionMap := (List.range m.reactions.length).map Int.ofNat }

/-! ## Writing -/

def differentiatedHeader : String :=
  "#ifndef AD_JAC_H\n#define AD_JAC_H\n"
    ++ "void eval_jacob (const double t, const double pres, const double* y, double* jac);\n#endif\n"

/-- Writes a file into the build folder, in a folder of its own if its path has one. -/
def writeSource (build : String) (f : SourceFile Scalar) : Job Unit := do
  let path := Path.join build f.path
  let parent := Path.folder f.path
  if !parent.isEmpty then Job.makeFolder (Path.join build parent)
  Job.writeFile path f.text

def writeSources (build : String) (files : Except Fault (List (SourceFile Scalar))) :
    Job Unit := do
  (← (files : Except Fault _)).forM (writeSource build)

/-- The files that an earlier run may have left and that name the parts of split code. -/
def partLists (l : Language) : List String :=
  ["jacobs/jac_list_" ++ l.name, "rates/rate_list_" ++ l.name]

def writeLaunch (s : Settings) (l : Language) : Job (Option Accelerator.Bank) := do
  if l == .cuda then
    let header ← Emit.launchHeader s.blocks s.threads s.preferCache s.unshared
    writeSource s.build header
    Job.writeFile (Path.join s.build Emit.registerPath) ""
    let registers ← Emit.registerFile s.blocks s.threads
    writeSource s.build registers
    if s.unshared then return none
    return some (← Accelerator.Bank.create s.blocks s.threads s.preferCache)
  return none

def writeAll (s : Settings) (u : Splitting) (t : Emit.Target) (a : Arrangement)
    (reactions : List (Reaction Nat Scalar)) : Job Unit := do
  let write := writeSources s.build
  write (Emit.reactionRateFiles t u.rates a.species reactions a.reactionMap)
  if reactions.any (·.isModified) then
    write do return [← Emit.modificationFile t a.species reactions a.reactionMap]
  let (file, seen) ← Emit.speciesRateFile t a.species reactions a.order.forward a.reactionMap
  writeSource s.build file
  write (Emit.thermodynamicsFiles t a.species)
  write (Emit.derivativeFiles t a.species reactions seen)
  write (Emit.massMoleFiles t.language a.species)
  write do return [← Emit.commonHeader t.language]
  write (Emit.mechanismFiles t a.species reactions a.order s.initial.toList)
  if !(s.skipJacobian || s.differentiable) then
    let (files, written) ← Jacobian.jacobianFiles t u.jacobian a.species reactions seen
    files.forM (writeSource s.build)
    write (Jacobian.sparseProductFiles t a.species.length written)

def generate (u : Splittings) (s : Settings) (input : Input) : Job Unit := do
  if s.language != "c" && s.differentiable then
    Job.quit "Error: autodifferention only supported for C" 2
  let l ← match Language.ofName (lowered s.language) with
    | .ok l => pure l
    | .error _ =>
      Job.quit ("Error: language needs to be one of: \n"
        ++ String.intercalate "\n" (Language.all.map (·.name))) 2
  Job.makeFolder s.build
  if s.differentiable then
    Job.writeFile (Path.join s.build "ad_jacob.h") differentiatedHeader
  let m ← input.load
  let last ← chooseLast m.species s.last
  let a ← arrange s m last
  if !s.differentiable then
    (partLists l).forM fun p => Job.removeFile (Path.join s.build p)
  let bank ← writeLaunch s l
  let reactions ← indexReactions (a.species.map (·.name)) a.reactions
  writeAll s (u.select l) { language := l, differentiable := s.differentiable, bank } a reactions

end Kinetics.Generation
