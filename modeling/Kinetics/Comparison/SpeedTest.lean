import Kinetics.Comparison.Orders
import Kinetics.Library.Compiler
/-!
# Speed tests

The command that links a speed test, and the search for mechanisms to test.
-/

namespace Kinetics.Comparison

open Workspace Library

/-- Stops the comparison if a header declares other numbers than the mechanism has. -/
def checkCounts (r : Reference) (header : String) : Job Unit := do
  if let some message := countMismatch r header then
    Job.say message
    throw .bareFailure

/-- The linker for a compiler, which for code of the accelerator depends on whether it is linked
for loading. -/
def linkerFor (name : String) (shared : Bool) : Job (Compiler × String) := do
  match Compiler.ofName name with
  | .ok c => return (c, if c == .nvcc && shared then "g++" else c.program)
  | .error _ =>
    Job.say "Lang must be one of {icc, c, cuda}"
    throw .bareFailure

structure SpeedTest where
  subject : String
  compiler : String
  folder : String
  files : List String
  /-- A library to link with, which is looked for where the job works. -/
  library : Option String := none
  deriving Repr, Inhabited

def comparisonLibrary (subject : String) : Job (List String) := do
  if subject != "tchem" then return []
  match (← read).comparison with
  | some home =>
    if home.isEmpty then throw (.environment "TCHEM_HOME")
    return ["-L" ++ Path.join home "lib", "-ltchem"]
  | none => throw (.environment "TCHEM_HOME")

def SpeedTest.command (t : SpeedTest) : Job (List String) := do
  let (c, program) ← linkerFor t.compiler false
  let search ← if c == .nvcc then do pure ["-L" ++ (← acceleratorLibraries)] else pure []
  let other ← comparisonLibrary t.subject
  let here := (← read).here
  let own := match t.library with
    | some l => ["-L" ++ here, "-l" ++ l]
    | none => []
  return [program] ++ (if t.subject == "cuda" then c.flags else [])
    ++ t.files.map (objectPath t.folder) ++ ["-o", Path.join t.folder "speedtest"] ++ search
    ++ c.libraries ++ (if c == .nvcc then [] else ["-fopenmp"]) ++ other ++ own ++ ["-lm"]

def SpeedTest.link (t : SpeedTest) : Job Unit := do
  let command ← t.command
  Job.say (String.intercalate " " command)
  match ← Job.run command with
  | .done => return
  | .missing => throw .commandMissing
  | .failed => Job.quit "Error: linking of test program failed." 1

def mechanismFiles (f : Folder) (p : Place) : List Place :=
  (f.files.map (·.1)).filter fun q =>
    q.length == p.length + 2 && q.take p.length == p
      && ".cti".toList.isSuffixOf (q.getLast?.getD "").toList

def findMechanisms (path : String) : Job Unit := do
  let here := (← read).here
  let full := Path.absolute here path
  let folder := (← get).folder
  if !(← Job.holds full) then
    Job.quit ("Error: work directory " ++ full
      ++ " for performance testing not found, exiting...") (-1)
  if (folder.read here full).toOption.isSome then throw .notADirectory
  let p ← folder.locate here full
  if (mechanismFiles folder p).isEmpty then
    Job.quit ("No mechanisms found for performance testing in " ++ full ++ ", exiting...") (-1)

end Kinetics.Comparison
