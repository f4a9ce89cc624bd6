import Kinetics.Emit.DeviceMemory
import Kinetics.Emit.MechanismHeader
import Kinetics.Number.Numeral
/-!
# The mechanism source

Functions that bring a vector of species values into the new order and back, and one that sets
initial conditions.
-/

namespace Kinetics.Emit

open Code

variable {α : Type} [Arithmetic α]

/-! ## Initial conditions -/

/-- The state that is set before a run: temperature in kelvin, pressure in atmospheres, and mole
numbers of some species. -/
structure InitialState (α : Type) where
  temperature : α
  pressure : α
  moles : List (Nat × α)
  deriving Repr, Inhabited

def InitialState.standard : InitialState α := ⟨Arithmetic.ofInt 1600, Arithmetic.one, []⟩

def stop {β : Type} (said : String) : Except Fault β := .error (.halt (said ++ "\n") (some 1))

def readMoles (entry : List Char) : Except Fault (List Char × Float) :=
  match Text.splitOn ['='] entry with
  | name :: value :: _ =>
    match Number.readReal value with
    | .ok x => .ok (name, x)
    | .error _ => stop "Unknown (non-float) value found as initial mole number in list"
  | _ => stop "Unknown (non-float) value found as initial mole number in list"

/-- Reads a state from temperature, pressure and mole numbers with commas between them. -/
def InitialState.read (names : List String) (text : List Char) :
    Except Fault (InitialState Scalar) := do
  match (Text.splitOn [','] text).map Text.strip with
  | T :: P :: m :: ms =>
    match Number.readReal T, Number.readReal P with
    | .ok temperature, .ok pressure =>
      let moles ← (m :: ms).mapM readMoles
      let placed ← moles.mapM fun (name, x) =>
        match names.idxOf? (String.ofList name) with
        | some i => pure (i, Scalar.float x)
        | none => stop "Unknown species in initial mole list"
      return ⟨.float temperature, .float pressure, placed⟩
    | _, _ => stop "Could not parse initial T or P as floats..."
  | _ =>
    stop ("Initial conditions improperly specified, expecting form T,P,Species1=...,Species2=...\n"
      ++ "Error in initial conditions list, not comma separated")

/-! ## The source file -/

/-- The statements that permute a vector: position `i` takes what stood at `order[i]`. -/
def permutationSteps (order : List Int) : List (Step α) :=
  [.line "        double temp [NSP];\n",
    .line "        memcpy(temp, y_specs, NSP * sizeof(double));\n"]
    ++ order.zipIdx.map fun (s, (i : Nat)) => .assign 8 (.cell "y_specs" i) .set (.cell "temp" s)

/-- The body of a function that brings a vector into another order; it is empty if the order did
not change. -/
def maskSteps (n : Nat) (o : SpeciesOrder) (order : List Int) : List (Step α) :=
  if o.optimized || o.last != some (n - 1 : Int) then permutationSteps order else []

def maskFunction (name : String) (steps : List (Step α)) : FilePart α :=
  .function { mark := "    ", name, spaced := false, params := [⟨"double*", "y_specs"⟩] }
    (steps.map .step) "    \x7d\n"

def conditionsStart : String :=
  "void set_same_initial_conditions(int NUM, double** y_host, double** var_host) \n\x7b\n"
    ++ "    double Xi [NSP] = \x7b0.0\x7d;\n    //set initial mole fractions here\n\n"
    ++ "    //Normalize mole fractions to sum to one\n    double Xsum = 0.0;\n"

def conditionsMiddle : String :=
  "    for (int j = 0; j < NSP; ++ j) \x7b\n        Xsum += Xi[j];\n    \x7d\n"
  ++ "    if (Xsum == 0.0) \x7b\n"
  ++ "        printf(\"Use of the set initial conditions function requires user implementation!\\n\");\n"
  ++ "        exit(-1);\n    \x7d\n    for (int j = 0; j < NSP; ++ j) \x7b\n        Xi[j] /= Xsum;\n"
  ++ "    \x7d\n\n    //convert to mass fractions\n    double Yi[NSP - 1] = \x7b0.0\x7d;\n"
  ++ "    mole2mass(Xi, Yi);\n\n    //set initial pressure, units [PA]\n"

def conditionsEnd : String :=
  "\n    (*y_host) = (double*)malloc(NUM * NSP * sizeof(double));\n"
  ++ "    (*var_host) = (double*)malloc(NUM * sizeof(double));\n"
  ++ "    //load temperature and mass fractions for all threads (cells)\n"
  ++ "    for (int i = 0; i < NUM; ++i) \x7b\n        (*y_host)[i] = T0;\n"
  ++ "        //loop through species\n        for (int j = 1; j < NSP; ++j) \x7b\n"
  ++ "            (*y_host)[i + NUM * j] = Yi[j - 1];\n        \x7d\n    \x7d\n\n#ifdef CONV\n"
  ++ "    //calculate density\n    double rho = getDensity(T0, P, Xi);\n#endif\n\n"
  ++ "    for (int i = 0; i < NUM; ++i) \x7b\n#ifdef CONV\n        (*var_host)[i] = rho;\n"
  ++ "#elif defined(CONP)\n        (*var_host)[i] = P;\n#endif\n    \x7d\n"

def conditionsFunction (s : InitialState α) : FilePart α :=
  .routine conditionsStart
    (s.moles.map (fun (i, x) => .step (.assign 4 (.cell "Xi" i) .set (.plain x)))
      ++ [.step (.line conditionsMiddle),
        .step (.declare 4 "double" ["P"] none (some (.plain (atmosphere * s.pressure))) .semicolon),
        .step (.line "    // set intial temperature, units [K]\n"),
        .step (.declare 4 "double" ["T0"] none (some (.plain s.temperature)) .semicolon),
        .step (.line conditionsEnd)])
    "\x7d\n\n"

/-- The mechanism source. It runs on the host, so its arrays are those of the host language. -/
def mechanismSource (l : Language) (n : Nat) (o : SpeciesOrder) (s : InitialState α) :
    Except Fault (SourceFile α) := do
  let suffix ← headerOnly l
  return {
    path := "mechanism" ++ l.sourceSuffix
    language := .c
    parts := [
      .text ("#include \"mass_mole" ++ suffix ++ "\"\n#include <stdio.h>\n#include \"mechanism" ++ suffix
        ++ "\"\n" ++ (if l == .cuda then "#include \"gpu_memory.cuh\"\n" else "")
        ++ "    //apply masking of ICs for cache optimized mechanisms\n"),
      maskFunction "apply_mask" (maskSteps n o o.forward),
      .text "    //reverse masking of ICs for cache optimized mechanisms\n",
      maskFunction "apply_reverse_mask" (maskSteps n o o.backward),
      conditionsFunction s] }

def mechanismFiles (t : Target) (species : List (Species Scalar))
    (reactions : List (Reaction Nat Scalar)) (o : SpeciesOrder) (initial : List Char) :
    Except Fault (List (SourceFile Scalar)) := do
  let _ ← headerOnly t.language
  let names := species.map (·.name)
  let arrays ← deviceArrays species reactions
  let state ← if initial.isEmpty then pure .standard else InitialState.read names initial
  let header ← mechanismHeader t.language arrays names reactions o
  let source ← mechanismSource t.language species.length o state
  return (if t.differentiable then [differentiatedJacobian] else [])
    ++ [header, source]
    ++ (if t.onDevice then [deviceMemoryHeader, deviceMemorySource arrays, deviceMacros] else [])

end Kinetics.Emit
