import Kinetics.Code.Language
import Kinetics.Workspace.Job
/-!
# Compilers

The compilers with their options, and the command that compiles one source file.
-/

namespace Kinetics.Library

open Workspace

inductive Compiler where
  | gcc
  | icc
  | nvcc
  deriving Repr, DecidableEq, Inhabited

namespace Compiler

def name : Compiler → String
  | .gcc => "c"
  | .icc => "icc"
  | .nvcc => "cuda"

def ofName (s : String) : Except Fault Compiler :=
  match [gcc, icc, nvcc].find? (·.name == s) with
  | some c => .ok c
  | none => .error (.unknownName s)

def program : Compiler → String
  | .gcc => "gcc"
  | .icc => "icc"
  | .nvcc => "nvcc"

def includes : Compiler → List String
  | .gcc | .icc => ["/usr/local/include/"]
  | .nvcc => ["/usr/local/cuda/include/", "/usr/local/cuda/samples/common/inc/"]

def flags : Compiler → List String
  | .gcc => ["-std=c99", "-O3", "-mtune=native"]
  | .icc => ["-std=c99", "-O3", "-xhost", "-fp-model", "precise", "-ipo"]
  | .nvcc => ["-O3", "-arch=sm_20"]

def sharedFlags : Compiler → List String
  | .gcc | .icc => ["-fPIC"]
  | .nvcc => ["-Xcompiler", "\"-fPIC\""]

def libraries : Compiler → List String
  | .gcc => ["-lm", "-std=c99"]
  | .icc => ["-m64", "-ipo", "-lm", "-std=c99"]
  | .nvcc => ["-lcudart"]

def archiver (c : Compiler) (shared : Bool) : List String :=
  match c, shared with
  | .nvcc, false => ["nvcc", "-lib"]
  | _, false => ["ar", "rcs"]
  | _, true => [c.program, "-shared"]

end Compiler

def libraryEnding (shared : Bool) : String := if shared then ".so" else ".a"

structure Compilation where
  selected : String
  language : String
  file : String
  includes : List String
  options : List String
  source : String
  objects : String
  differentiable : Bool
  deriving Repr, Inhabited

def Compilation.fileName (u : Compilation) : Except Fault String := do
  return u.file ++ (← Language.ofName u.language).sourceSuffix

def objectPath (folder file : String) : String := Path.join folder (Path.base file ++ ".o")

/-- The program and its options. Differentiable code is compiled as another language. -/
def compilerWords (c : Compiler) (differentiable : Bool) : List String :=
  if differentiable then
    ("g++" :: c.flags).filter fun w => !Text.occurs "std=c99".toList w.toList
  else c.program :: c.flags

def Compilation.command (u : Compilation) : Except Fault (List String) := do
  let c ← Compiler.ofName u.language
  let file ← u.fileName
  let words := compilerWords c u.differentiable
    ++ c.sharedFlags ++ u.options ++ (u.includes ++ c.includes).map ("-I" ++ ·)
    ++ [if u.selected == "cuda" then "-dc" else "-c", Path.join u.source file, "-o",
      objectPath u.objects u.file]
  return words.filter fun w => !(Text.strip w.toList).isEmpty

def Compilation.compile (u : Compilation) : Job Bool := do
  let command ← u.command
  Job.say (String.intercalate " " command)
  match ← Job.run command with
  | .done => return true
  | .missing =>
    Job.quit ("Error: Compiler " ++ command.headD ""
      ++ " not found, generation of pyjac library failed.") (-1)
  | .failed =>
    Job.say ("Error: compilation failed for " ++ (← u.fileName))
    return false

/-- The folder with the libraries of the accelerator: beside the one with its compiler. -/
def acceleratorLibraries : Job String := do
  match ← Job.findProgram "nvcc" with
  | some path => return Path.join (Path.folder (Path.folder path)) "lib64"
  | none => Job.quit "nvcc not found!" (-1)

end Kinetics.Library
