import Kinetics.Reactor.Table
import Kinetics.Workspace.Job
/-!
# Input of a reactor

The parameters of a reactor simulation: those that must be given, and those with defaults. A value
that is absent, zero or empty counts as not given.
-/

namespace Kinetics.Reactor

open Workspace

inductive Value where
  | nothing
  | truth (b : Bool)
  | number (x : Scalar)
  | text (s : String)
  | list (xs : List Value)
  | table (xs : List (String × Value))
  deriving Repr, Inhabited

def Value.isGiven : Value → Bool
  | .nothing => false
  | .truth b => b
  | .number x => !Arithmetic.isZero x
  | .text s => !s.isEmpty
  | .list xs => !xs.isEmpty
  | .table xs => !xs.isEmpty

abbrev Parameters := List (String × Value)

namespace Parameters

def get (p : Parameters) (name : String) : Value := (p.lookup name).getD .nothing

def knowsCase (p : Parameters) : Bool :=
  match p.get "case" with
  | .text s => s == "premixed" || s == "non-premixed"
  | _ => false

def hasRatio (p : Parameters) : Except Fault Bool :=
  let v := p.get "equivalence ratio"
  if !v.isGiven then .ok false
  else match v with
    | .number x => .ok !Arithmetic.isNegative x
    | .truth _ => .ok true
    | _ => .error .wrongKind

def require (condition : Bool) (message : String) : Except Fault Unit :=
  if condition then .ok () else .error (.halt (message ++ "\n") (some 1))

def defaults : List (String × Scalar) :=
  [("number of particles", .int 100),
    ("residence time", Arithmetic.ofDecimal ⟨10, 0, -3⟩),
    ("mixing time", Arithmetic.ofDecimal ⟨1, 0, -3⟩),
    ("pairing time", Arithmetic.ofDecimal ⟨1, 0, -3⟩),
    ("number of residence times", .int 5)]

def complete (p : Parameters) : Except Fault Parameters := do
  let given name := (p.get name).isGiven
  require p.knowsCase "Error: case needs to be one of \"premixed\" or \"non-premixed\"."
  require (given "temperature") "Error: (initial) temperature needs to be specified."
  require (given "pressure") "Error: pressure needs to be specified."
  require (← p.hasRatio) "Error: eq_ratio needs to be specified and > 0.0."
  require (given "fuel") "Error: fuel species and mole fraction need to specified."
  require (given "oxidizer") "Error: oxidizer species and mole fractions need to be specified."
  require (given "complete products") "Error: need to specify list of complete products."
  return defaults.foldl (fun p (name, x) =>
    if (p.get name).isGiven then p else assign name (.number x) p) p

end Parameters

def parametersOf : Option Parameters → Except Fault Parameters
  | none => .error .noSuchPart
  | some p => p.complete

/-- Reads an input file. There is no loader for its format, so that a file that can be read is
refused. -/
def readInput (path : String) : Job Parameters := do
  let _ ← Job.readFile path
  throw .wrongKind

end Kinetics.Reactor
