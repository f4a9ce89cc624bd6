import Kinetics.CommandLine.Options
import Kinetics.Comparison.SpeedTest
import Kinetics.Generation.Generate
import Kinetics.Library.Wrapper
import Kinetics.Reactor.Input
/-!
# Commands

The commands with their options, and what each of them does.
-/

namespace Kinetics.CommandLine

open Workspace

def languages : List String := ["c", "cuda", "fortran", "matlab"]

def languageSwitch : Switch := ⟨"-l", "--lang", .text languages, true⟩

def textSwitch (short long : String) : Switch := ⟨short, long, .text [], false⟩

def neededSwitch (short long : String) : Switch := ⟨short, long, .text [], true⟩

def flagSwitch (short long : String) : Switch := ⟨short, long, .flag, false⟩

def wholeSwitch (short long : String) : Switch := ⟨short, long, .whole, false⟩

inductive Command where
  | generate
  | jacobian
  /-- Generates code for rates only, which is not provided. -/
  | rates
  | library
  | wrapper
  | speed
  | comparison
  | reactor
  deriving Repr, DecidableEq, Inhabited

def Command.all : List (String × Command) :=
  [("generate", .generate), ("jacobian", .jacobian), ("rates", .rates), ("library", .library),
    ("wrapper", .wrapper), ("speed", .speed), ("comparison", .comparison), ("reactor", .reactor)]

def generatorSwitches : List Switch :=
  [languageSwitch,
    neededSwitch "-i" "--input",
    textSwitch "-t" "--thermo",
    textSwitch "-ic" "--initial-conditions",
    flagSwitch "-co" "--cache-optimizer",
    flagSwitch "-nosmem" "--no-shared-memory",
    flagSwitch "-pshare" "--prefer-shared",
    wholeSwitch "-nb" "--num-blocks",
    wholeSwitch "-nt" "--num-threads",
    wholeSwitch "-mt" "--multi-threaded",
    flagSwitch "-fopt" "--force-optimize",
    textSwitch "-b" "--build_path",
    textSwitch "-ls" "--last_species",
    flagSwitch "-ad" "--auto_diff",
    flagSwitch "-sj" "--skip_jac"]

def Command.switches : Command → List Switch
  | .generate | .jacobian | .rates => generatorSwitches
  | .library =>
    [languageSwitch,
      neededSwitch "-so" "--source_dir",
      textSwitch "-ob" "--obj_dir",
      textSwitch "-out" "--out_dir",
      flagSwitch "-st" "--static"]
  | .wrapper =>
    [languageSwitch, neededSwitch "-so" "--source_dir", textSwitch "-out" "--out_dir"]
  | .speed =>
    [textSwitch "-w" "--working_directory", flagSwitch "-uoo" "--use_old_opt"]
  | .comparison =>
    [languageSwitch,
      textSwitch "-b" "--build_dir",
      neededSwitch "-m" "--mech",
      textSwitch "-t" "--thermo",
      textSwitch "-i" "--input",
      flagSwitch "-dng" "--do_not_generate",
      wholeSwitch "-s" "--seed",
      textSwitch "-p" "--pasr_output",
      textSwitch "-ls" "--last_spec",
      flagSwitch "-co" "--cache_optimization",
      flagSwitch "-nosmem" "--no_shared",
      flagSwitch "-tc" "--tchem",
      flagSwitch "-dnc" "--do_not_compile",
      textSwitch "-orxn" "--only_reaction",
      flagSwitch "-dnr" "--do_not_remove",
      textSwitch "-cn" "--condition_numbers"]
  | .reactor =>
    [neededSwitch "-i" "--input",
      neededSwitch "-m" "--mech",
      textSwitch "-t" "--thermo",
      textSwitch "-o" "--output"]

def Command.reads (w : Library.Workshop) (c : Command) (a : Arguments) : List String :=
  match c with
  | .generate | .jacobian => a.text "--input" :: (a.text? "--thermo").toList
  | .library | .wrapper =>
    let source := a.text "--source_dir"
    let l := a.text "--lang"
    ["adjacob", "pyjacob", "pyjacob_cuda", "pytchem"].map
        (fun n => Path.join w.home (n ++ "_setup.py.in"))
      ++ ["mechanism.h", "mechanism.cuh", "jacobs/jac_list_" ++ l, "rates/rate_list_" ++ l].map
        (Path.join source)
  | .reactor => [a.text "--input"]
  | .rates | .speed | .comparison => []

/-! ## Generating code -/

structure GeneratorOptions where
  settings : Generation.Settings
  input : String
  thermo : Option String
  /-- The number of processes for the search for a good order. -/
  processes : Int
  deriving Repr, Inhabited

def GeneratorOptions.ofArguments (processors : Int) (a : Arguments) : GeneratorOptions where
  settings := {
    language := a.text "--lang"
    initial := a.text "--initial-conditions"
    blocks := (a.whole? "--num-blocks").getD 8
    threads := (a.whole? "--num-threads").getD 64
    unshared := a.has "--no-shared-memory"
    preferCache := !a.has "--prefer-shared"
    last := a.text? "--last_species"
    skipJacobian := a.has "--skip_jac"
    differentiable := a.has "--auto_diff"
    build := (a.text? "--build_path").getD "./out/"
    optimize := a.has "--cache-optimizer"
    force := a.has "--force-optimize" }
  input := a.text "--input"
  thermo := a.text? "--thermo"
  processes := (a.whole? "--multi-threaded").getD processors

def readGeneratorOptions (processors : Int) (words : List String) :
    Except Misuse GeneratorOptions := do
  return .ofArguments processors (← parse generatorSwitches words)

def GeneratorOptions.run (o : GeneratorOptions) : Job Unit :=
  Generation.generate {} o.settings (.file o.input o.thermo)

/-! ## Comparing -/

structure ComparisonOptions where
  language : String
  build : String
  mechanism : String
  thermo : Option String
  input : String
  generate : Bool
  compile : Bool
  seed : Option Int
  states : Option String
  last : Option String
  optimize : Bool
  unshared : Bool
  other : Bool
  reactions : Option String
  keep : Bool
  conditions : Option String
  deriving Repr, Inhabited

def ComparisonOptions.ofArguments (a : Arguments) : ComparisonOptions where
  language := a.text "--lang"
  build := (a.text? "--build_dir").getD "out/"
  mechanism := a.text "--mech"
  thermo := a.text? "--thermo"
  input := (a.text? "--input").getD "pasr_input.yaml"
  generate := !a.has "--do_not_generate"
  compile := !a.has "--do_not_compile"
  seed := a.whole? "--seed"
  states := a.text? "--pasr_output"
  last := a.text? "--last_spec"
  optimize := a.has "--cache_optimization"
  unshared := a.has "--no_shared"
  other := a.has "--tchem"
  reactions := a.text? "--only_reaction"
  keep := a.has "--do_not_remove"
  conditions := a.text? "--condition_numbers"

/-! ## All commands -/

/-- Carries out a command. A comparison needs the chemistry library, so it is given back. -/
def Command.run (w : Library.Workshop) (c : Command) (words : List String) :
    Job (Option ComparisonOptions) := do
  let a ← match parse c.switches words with
    | .ok a => pure a
    | .error m => throw m.fault
  let generator := GeneratorOptions.ofArguments 1 a
  match c with
  | .generate =>
    generator.run
    throw (.halt "" none)
  | .jacobian =>
    let settings := { generator.settings with skipJacobian := false }
    GeneratorOptions.run { generator with settings }
  | .rates => throw .wrongKind
  | .library =>
    let _ ← Library.Plan.build {
      selected := a.text "--lang"
      source := a.text "--source_dir"
      objects := a.text? "--obj_dir"
      out := a.text? "--out_dir"
      shared := !a.has "--static" }
  | .wrapper =>
    Library.wrap w (a.text "--lang") (a.text "--source_dir") (a.text? "--out_dir") false
  | .speed => Comparison.findMechanisms ((a.text? "--working_directory").getD "performance")
  | .comparison => return some (.ofArguments a)
  | .reactor => let _ ← Reactor.readInput (a.text "--input")
  return none

end Kinetics.CommandLine
