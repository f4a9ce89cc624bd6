import Kinetics.Library.Build
import Kinetics.Library.Template
/-!
# Wrapping a library

A wrapper makes a library callable from an interpreter. It is built by a setup script, which is
made from a template.
-/

namespace Kinetics.Library

open Workspace

def templateEnding : String := ".in"

/-- The path of the file made from a template: the path up to the last template ending. -/
def filledPath (path : String) : Except Fault String :=
  match Text.find? templateEnding.toList.reverse path.toList.reverse with
  | some i => .ok (String.ofList (path.toList.take (path.length - i - templateEnding.length)))
  | none => .error .notListed

def fillTemplate (path home build out : String) (library : Option String) : Job Unit := do
  let template ← Job.readFile path
  let text := Template.fill [("homepath", home), ("buildpath", build),
    ("libname", library.getD "None"), ("outpath", out)] (String.ofList (Text.unifyLineEnds template.toList))
  Job.writeFile (← filledPath path) text

structure Workshop where
  home : String
  /-- The folder with intermediate files, which has the name of the platform. -/
  build : String
  interpreter : String
  deriving Repr, Inhabited

def templateName (selected : String) (differentiable : Bool) : Job String :=
  match selected with
  | "c" => return if differentiable then "adjacob_setup.py.in" else "pyjacob_setup.py.in"
  | "cuda" => return "pyjacob_cuda_setup.py.in"
  | "tchem" => return "pytchem_setup.py.in"
  | _ => Job.quit ("Language " ++ selected ++ " not recognized") (-1)

def wrap (w : Workshop) (selected source : String) (out : Option String) (differentiable : Bool) :
    Job Unit := do
  let source := Path.simplify source
  let here := (← read).here
  let library ← if selected == "tchem" then pure none else do
    let path ← Plan.build { selected, source, out := some w.build, differentiable }
    pure (some (Path.simplify path))
  let template ← templateName selected differentiable
  let path := Path.join w.home template
  fillTemplate path w.home source w.build library
  Job.mustRun [w.interpreter, ← filledPath path, "build_ext", "--build-lib", out.getD here]

end Kinetics.Library
