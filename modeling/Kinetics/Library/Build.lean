import Kinetics.Code.Directive
import Kinetics.Library.Compiler
import Kinetics.Library.Sources
/-!
# Building a library

Compiles generated sources and puts the object files together.
-/

namespace Kinetics.Library

open Workspace

def libraryName (selected : String) (differentiable : Bool) : Except Fault String :=
  match selected with
  | "cuda" => .ok "libcu_pyjac"
  | "c" => .ok (if differentiable then "libad_pyjac" else "libc_pyjac")
  | _ => .error (.unset "desc")

def archiveCommand (selected objects out : String) (files : List String) (shared : Bool)
    (library : String) : Job (List String) := do
  let c ← Compiler.ofName selected
  let target := Path.join out library
  let start := c.archiver shared ++ (if !shared && c == .gcc then [target] else [])
    ++ files.map (objectPath objects) ++ if shared then c.sharedFlags else []
  if shared || c == .nvcc then
    let search ← if c == .nvcc then do pure ["-L" ++ (← acceleratorLibraries)] else pure []
    return start ++ ["-o", target] ++ search ++ c.libraries
  return start

/-- Makes a library of object files in place of an older one, and gives its name. -/
def archive (selected objects out : String) (files : List String) (shared differentiable : Bool) :
    Job String := do
  let name ← libraryName selected differentiable
  [shared, !shared].forM fun kind => Job.removeFile (Path.join out (name ++ libraryEnding kind))
  let library := name ++ libraryEnding shared
  let command ← archiveCommand selected objects out files shared library
  Job.say (String.intercalate " " command)
  match ← Job.run command with
  | .done => return library
  | .missing => throw (.undefinedName "args")
  | .failed => Job.quit "Error: Generation of pyjac library failed." (-1)

structure Plan where
  selected : String
  source : String
  objects : Option String := none
  out : Option String := none
  shared : Bool := false
  finiteDifference : Bool := false
  differentiable : Bool := false
  deriving Repr, Inhabited

def declaresModified (header : String) : Bool :=
  ((Text.lines header).findSome? fun line =>
    Code.findNumber "#define PRES_MOD_RATES " (Text.strip line)).any (0 < ·)

def outputFolder (given : Option String) (other : String) : Job String := do
  let here := (← read).here
  return match given with
    | some p => Path.absolute here p
    | none => if other.isEmpty then here else Path.join here other

def ensureFolder (path : String) : Job Unit := do
  if !(← Job.holds path) then Job.makeFolder path

def Plan.build (p : Plan) : Job String := do
  let _ ← match Compiler.ofName p.selected with
    | .ok c => pure c
    | .error _ => Job.quit ("Cannot generate library for unknown language " ++ p.selected) (-1)
  let shared := p.shared && p.selected != "cuda"
  let language := if p.selected == "icc" then "c" else p.selected
  let source := Path.absolute (← read).here p.source
  let objects ← outputFolder p.objects "obj"
  ensureFolder objects
  let out ← outputFolder p.out ""
  ensureFolder out
  let l ← Language.ofName language
  let header ← Job.readFile (Path.join source ("mechanism" ++ (← l.headerSuffix)))
  let here := (← read).here
  let folder := (← get).folder
  let selection : Selection := {
    language
    modified := declaresModified header
    finiteDifference := p.finiteDifference
    differentiable := p.differentiable }
  let sources := selection.sources (fun path => (folder.read here path).toOption) source
  let done ← sources.files.mapM fun file =>
    Compilation.compile {
      selected := p.selected
      language
      file
      includes := sources.includes
      options := if p.finiteDifference then ["-DFINITE_DIFF"] else []
      source
      objects
      differentiable := p.differentiable }
  if !done.all id then throw (.halt "" (some (-1)))
  return Path.join out (← archive p.selected objects out sources.files shared p.differentiable)

end Kinetics.Library
