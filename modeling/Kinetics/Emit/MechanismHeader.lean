import Kinetics.Emit.CommonHeader
import Kinetics.Emit.ReactionRates
/-!
# The mechanism header

Numbers of species and reactions, the names of the species in their order, and how that order came
about: whether it was optimized, and which species was moved to the end.
-/

namespace Kinetics.Emit

open Code

variable {α : Type} [Arithmetic α]

structure SpeciesOrder where
  /-- The given position of each species in the new order. -/
  forward : List Int
  backward : List Int
  optimized : Bool := false
  /-- The given position of the species that was moved to the end. -/
  last : Option Int := none
  deriving Repr, DecidableEq, Inhabited

def deviceArrays (species : List (Species α)) (reactions : List (Reaction Nat α)) :
    Except Fault (List (String × String)) := do
  let last ← reactions.mapM (Reaction.changesLast species.length)
  return [("y", "NSP"), ("dy", "NSP"), ("conc", "NSP"), ("fwd_rates", "FWD_RATES"),
      ("rev_rates", "REV_RATES"), ("spec_rates", "NSP"), ("cp", "NSP"), ("h", "NSP"),
      ("dBdT", "NSP"), ("jac", "NSP * NSP"), ("var", "1")]
    ++ (if last.any id then [("J_nplusjplus", "NSP")] else [])
    ++ (if reactions.any (·.isModified) then [("pres_mod", "PRES_MOD_RATES")] else [])
    ++ (if reactions.any (·.chebyshev) then [("dot_prod", toString (chebyshevSize reactions))] else [])

def memoryLines (l : Language) (arrays : List (String × String)) : String :=
  match l with
  | .cuda =>
    "#ifdef __GNUG__\n#include <cuda.h>\n#include <cuda_runtime.h>\n#include <helper_cuda.h>\n"
      ++ "#include \"launch_bounds.cuh\"\n#include \"gpu_macros.cuh\"\n#endif\n\n"
      ++ "struct mechanism_memory \x7b\n"
      ++ String.join (arrays.map fun a => "  double * " ++ a.1 ++ ";\n") ++ "\x7d;\n\n"
  | _ => "#include <string.h>\n"

def lastSpeciesLine (o : SpeciesOrder) : String :=
  "//last_spec " ++ (match o.last with
    | some i => toString i
    | none => "None") ++ "\n"

def speciesComment (names : List String) : String :=
  "/* Species Indexes\n"
    ++ String.intercalate "\n" (names.zipIdx.map fun (name, i) => toString i ++ "  " ++ name)
    ++ "\n*/\n\n"

def mechanismCounts (n : Nat) (reactions : List (Reaction Nat α)) : String :=
  "//Number of species\n#define NSP " ++ toString n
    ++ "\n//Number of variables. NN = NSP + 1 (temperature)\n#define NN " ++ toString (n + 1)
    ++ "\n//Number of forward reactions\n#define FWD_RATES " ++ toString reactions.length
    ++ "\n//Number of reversible reactions\n#define REV_RATES "
    ++ toString (reactions.countP (·.reversible))
    ++ "\n//Number of reactions with pressure modified rates\n#define PRES_MOD_RATES "
    ++ toString (reactions.countP (·.isModified)) ++ "\n\n"

def mechanismDeclarations : String :=
  "void set_same_initial_conditions(int, double**, double**);\n\n"
  ++ "#if defined (RATES_TEST) || defined (PROFILER)\n"
  ++ "    void write_jacobian_and_rates_output(int NUM);\n#endif\n"
  ++ "//apply masking of ICs for cache optimized mechanisms\nvoid apply_mask(double*);\n"
  ++ "void apply_reverse_mask(double*);\n#endif\n\n"

def mechanismHeaderText (l : Language) (suffix : String) (arrays : List (String × String))
    (names : List String) (reactions : List (Reaction Nat α)) (o : SpeciesOrder) : String :=
  let guard := "MECHANISM_" ++ (suffix.drop 1).toString
  "#ifndef " ++ guard ++ "\n#define " ++ guard ++ "\n\n" ++ memoryLines l arrays
    ++ (if o.optimized then "//Cache Optimized\n" else "") ++ lastSpeciesLine o
    ++ speciesComment names ++ mechanismCounts names.length reactions
    ++ "//Must be implemented by user on a per mechanism basis in mechanism" ++ l.sourceSuffix ++ "\n"
    ++ mechanismDeclarations

def mechanismHeader (l : Language) (arrays : List (String × String)) (names : List String)
    (reactions : List (Reaction Nat α)) (o : SpeciesOrder) : Except Fault (SourceFile α) := do
  let suffix ← headerOnly l
  return {
    path := "mechanism" ++ suffix
    language := l
    parts := [.text (mechanismHeaderText l suffix arrays names reactions o)] }

end Kinetics.Emit
