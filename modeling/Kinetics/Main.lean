import Kinetics.CommandLine.Commands
/-!
# Program

The first word of the command line names a command, the others are its options. Files are read
before the command is carried out and written after it; compilers are not started, but their
commands are told. Paths lead from the folder in which the program is started.
-/

namespace Kinetics.CommandLine

open Workspace

def mainWorkshop : Library.Workshop := ⟨"templates", "build/temp", "python"⟩

def readText (path : String) : IO (Option String) :=
  try
    return some (← IO.FS.readFile path)
  catch _ => return none

def loadFolder (paths : List String) : IO Folder :=
  paths.foldlM (fun f path => do
    match ← readText path with
    | some text => return f.place path text
    | none => return f) {}

def storeFolder (before after : Folder) : IO Unit := do
  for p in after.folders do
    if !p.isEmpty then IO.FS.createDirAll (String.intercalate "/" p)
  for (p, text) in after.files do
    if before.text? p != some text then
      IO.FS.writeFile (String.intercalate "/" p) text

def statusOf : Fault → UInt32
  | .halt _ (some n) => (n % 256).toNat.toUInt32
  | .halt _ none => 0
  | _ => 1

def perform (c : Command) (words : List String) : IO UInt32 := do
  let paths := match parse c.switches words with
    | .ok a => c.reads mainWorkshop a
    | .error _ => []
  let folder ← loadFolder paths
  let (result, s) := (c.run mainWorkshop words).start {} { folder }
  storeFolder folder s.folder
  IO.print s.session.said
  for command in s.commands do
    IO.println (String.intercalate " " command)
  match result with
  | .ok _ => return 0
  | .error f =>
    if let .halt said _ := f then IO.print said
    return statusOf f

end Kinetics.CommandLine

open Kinetics.CommandLine in
def main (words : List String) : IO UInt32 := do
  match words with
  | name :: rest =>
    match Command.all.lookup name with
    | some c => perform c rest
    | none => return 2
  | [] => return 2
