import Kinetics.Ordering.CacheOrder
import Kinetics.Reading.Session
import Kinetics.Workspace.Folder
/-!
# Jobs

A job works on a folder, reads input, tells the user something and runs commands. What it has
done remains if it fails. Commands are not carried out here: the host says how each of them ends.
-/

namespace Kinetics.Workspace

open Reading (Session)

inductive Outcome where
  | done
  | missing
  | failed
  deriving Repr, DecidableEq, Inhabited

structure Host where
  here : String := "."
  programs : List String := []
  outcome : List String → Outcome := fun _ => .done
  chance : Random.Source := .congruential
  /-- Where the chemistry library to compare with is installed. -/
  comparison : Option String := none

structure State where
  folder : Folder := {}
  session : Session := {}
  commands : List (List String) := []
  random : Nat := 0
  orders : List (Place × Ordering.Reordered Scalar) := []
  deriving Inhabited

abbrev Job (β : Type) := ReaderT Host (ExceptT Fault (StateM State)) β

namespace Job

variable {β : Type}

def start (j : Job β) (h : Host) (s : State) : Except Fault β × State :=
  StateT.run (ExceptT.run (ReaderT.run j h)) s

def say (line : String) : Job Unit :=
  modify fun s => { s with session := { s.session with said := s.session.said ++ line ++ "\n" } }

def quit (line : String) (status : Int) : Job β := throw (.halt (line ++ "\n") (some status))

def reading (r : Reading.Reader β) : Job β := fun _ (s : State) =>
  let (result, session) := r.start s.session
  (result, { s with session })

def change (f : Folder → String → Except Fault Folder) : Job Unit := do
  let here := (← read).here
  let folder ← f (← get).folder here
  modify fun s => { s with folder }

def readFile (path : String) : Job String := do
  let here := (← read).here
  (← get).folder.read here path

def writeFile (path text : String) : Job Unit := change fun f here => f.write here path text

def removeFile (path : String) : Job Unit :=
  change fun f here =>
    match f.remove here path with
    | .ok f => .ok f
    | .error _ => .ok f

def makeFolder (path : String) : Job Unit := change fun f here => f.make here path

def holds (path : String) : Job Bool := do
  let here := (← read).here
  return (← get).folder.holds here path

def run (command : List String) : Job Outcome := do
  modify fun s => { s with commands := s.commands ++ [command] }
  return (← read).outcome command

def mustRun (command : List String) : Job Unit := do
  match ← run command with
  | .done => return
  | .missing => throw .commandMissing
  | .failed => throw .commandFailed

def findProgram (name : String) : Job (Option String) := do
  let h ← read
  let f := (← get).folder
  return (h.programs.map (Path.join · name)).find? (f.holds h.here ·)

def optimize (build : String) (t : Random.Source → Ordering.Optimizer Scalar β) : Job β := do
  let h ← read
  let s ← get
  let p := (s.folder.locate h.here build).toOption.getD []
  let desk : Ordering.Desk Scalar := { source := s.random, kept := s.orders.lookup p }
  let (result, d) := StateT.run (ExceptT.run (t h.chance)) desk
  set { s with
    random := d.source
    orders := d.kept.elim s.orders fun o => (p, o) :: s.orders.filter (·.1 != p)
    session := { s.session with said := s.session.said ++ d.said } }
  (result : Except Fault β)

end Job

end Kinetics.Workspace
