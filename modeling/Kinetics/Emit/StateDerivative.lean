import Kinetics.Emit.ReactionRates
/-!
# The file of the state derivative

The rates of change of temperature and mass fractions, once for constant pressure and once for
constant volume. A compile-time switch selects one of the two functions.
-/

namespace Kinetics.Emit

open Code

variable {α : Type} [Arithmetic α]

/-- A work array: declared by size on the host, taken from preallocated memory on the device. -/
def workArray (t : Target) (array : String) (size : Nat) (memory : String) :
    Except Fault (Step α) := do
  if t.onDevice then
    return .declare 2 ("double * " ++ (← t.language.noAlias)) [array] none
      (some (.var ("d_mem->" ++ memory))) .semicolon
  else return .declare 2 t.real [array] (some size) none .semicolon

def realVariable (t : Target) (name : String) : Step α :=
  .declare 2 t.real [name] none none .semicolon

def nullArray (t : Target) (array : String) : Step α :=
  .declare 2 (t.real ++ "*") [array] none (some 0) .semicolon

/-- The address of the second entry of a state vector, where the mass fractions start. -/
def fractionsAddress (t : Target) (array : String) : Expr α :=
  .address (if t.onDevice then .named array "GRID_DIM" else .cell array 1)

def stateTemperature : Expr α := .cell "y" 0

def progressSteps (t : Target) (reactions : List (Reaction Nat α)) (extra : List (Expr α)) :
    Except Fault (List (Step α)) := do
  let reversible := reactions.countP (·.reversible)
  let forward ← workArray t "fwd_rates" reactions.length "fwd_rates"
  let backward ←
    if reversible = 0 then pure (nullArray t "rev_rates")
    else workArray t "rev_rates" reversible "rev_rates"
  let sums ←
    if extra.isEmpty then pure []
    else do pure [← workArray t "dot_prod" 0 "dot_prod"]
  return (if t.onDevice then [] else [.slashRemark " local arrays holding reaction rates"])
    ++ [forward, backward] ++ sums
    ++ [.call 2 "eval_rxn_rates" true
        ([stateTemperature, .pres, .var "conc", .var "fwd_rates", .var "rev_rates"] ++ extra), .blank]

def modificationCall (t : Target) (reactions : List (Reaction Nat α)) :
    Except Fault (List (Step α)) := do
  let modified := reactions.countP (·.isModified)
  if modified = 0 then return [nullArray t "pres_mod", .blank]
  else
    return [.slashRemark " get pressure modifications to reaction rates",
      ← workArray t "pres_mod" modified "pres_mod",
      .call 2 "get_rxn_pres_mod" true [stateTemperature, .pres, .var "conc", .var "pres_mod"], .blank]

def producedCell (t : Target) (n i : Nat) : Expr α :=
  if t.onDevice then .cell "spec_rates" i
  else if i + 1 < n then .cell "dy" (i + 1 : Nat) else .var "dy_N"

/-- The rate of change of temperature: minus the energy set free over density and heat
capacity. -/
def temperatureRate (t : Target) (species : List (Species α)) (produced : List Bool)
    (energy average : String) : Except Fault (Step α) := do
  let terms ← species.zipIdx.filterMapM fun (s, (i : Nat)) => do
    if ← entryAt produced i then
      return some (.group (producedCell t species.length i * .cell energy i * .full s.weight))
    else return none
  return .set (.cell "dy" 0)
    (.group (-1.0 / .group (.var "rho" * .var average)) * .group (sumOf { breakBefore := .past 7 } terms))

def fractionRates (t : Target) (species : List (Species α)) : List (Step α) :=
  species.dropLast.zipIdx.map fun (s, (i : Nat)) =>
    let factor := .group (.full s.weight / .var "rho")
    if t.onDevice then .set (.cell "dy" (i + 1 : Nat)) (.cell "spec_rates" i * factor)
    else .assign 2 (.cell "dy" (i + 1 : Nat)) .multiply factor

def heatTerms (heat : String) (n : Nat) : List (Expr α) :=
  (List.range (n - 1)).map fun (i : Nat) => .group (.cell heat i * .cell "y" (i + 1 : Nat))

def lastHeatTerm (heat : String) (n : Nat) : Expr α :=
  .group (.cell heat (n - 1 : Int) * .var "y_N")

def averageHeat (t : Target) (name : String) (value : Expr α) : List (Step α) :=
  [.declare 2 t.real [name] none (some value) .semicolon, .blank]

def derivativeEnd (t : Target) (species : List (Species α)) (produced : List Bool)
    (energy average : String) : Except Fault (List (Step α)) := do
  return [.slashRemark " rate of change of temperature",
      ← temperatureRate t species produced energy average, .blank,
      .slashRemark " calculate rate of change of species mass fractions"]
    ++ fractionRates t species ++ [.blank]

def constantPressureBody (t : Target) (species : List (Species α))
    (reactions : List (Reaction Nat α)) (produced : List Bool) : Except Fault (List (Step α)) := do
  let n := species.length
  let rates ← workArray t "spec_rates" n "spec_rates"
  let sums := if passesPartialSums t reactions then [.var "dot_prod"] else []
  let heat := match heatTerms "cp" n with
    | [] => lastHeatTerm "cp" n
    | terms => sumOf { breakBefore := .past 13 } terms + lastHeatTerm "cp" n
  return List.flatten [
    [.blank, .slashRemark " species molar concentrations", ← workArray t "conc" n "conc",
      realVariable t "y_N", realVariable t "mw_avg", realVariable t "rho",
      .call 2 "eval_conc" true
        [stateTemperature, .pres, fractionsAddress t "y", .address (.var "y_N"),
          .address (.var "mw_avg"), .address (.var "rho"), .var "conc"], .blank],
    ← progressSteps t reactions sums,
    ← modificationCall t reactions,
    if t.onDevice then [rates] else [],
    [.slashRemark " evaluate species molar net production rates"],
    if t.onDevice then [] else [realVariable t "dy_N"],
    [.call 2 "eval_spec_rates" true ([.var "fwd_rates", .var "rev_rates", .var "pres_mod"]
        ++ (if t.onDevice then
          [.var "spec_rates", .address (.cell "spec_rates" (n - 1 : Int))]
          else [.address (.cell "dy" 1), .address (.var "dy_N")])),
      .slashRemark " local array holding constant pressure specific heat",
      ← workArray t "cp" n "cp",
      .call 2 "eval_cp" true [stateTemperature, .var "cp"], .blank,
      .slashRemark " constant pressure mass-average specific heat"],
    averageHeat t "cp_avg" heat,
    [.slashRemark " local array for species enthalpies", ← workArray t "h" n "h",
      .call 2 "eval_h" false [stateTemperature, .var "h"]],
    ← derivativeEnd t species produced "h" "cp_avg"]

def constantVolumeBody (t : Target) (species : List (Species α))
    (reactions : List (Reaction Nat α)) (produced : List Bool) : Except Fault (List (Step α)) := do
  let n := species.length
  let heat := .beside (sumOf { breakBefore := .past 13 } (heatTerms "cv" n)) (lastHeatTerm "cv" n)
  return List.flatten [
    [.blank, .slashRemark " species molar concentrations", ← workArray t "conc" n "conc",
      realVariable t "y_N", realVariable t "mw_avg", realVariable t "pres",
      .call 2 "eval_conc_rho" true
        [.beside stateTemperature (.var "rho"), fractionsAddress t "y", .address (.var "y_N"),
          .address (.var "mw_avg"), .address (.var "pres"), .var "conc"], .blank],
    ← progressSteps t reactions [],
    ← modificationCall t reactions,
    [.slashRemark " evaluate species molar net production rates",
      .declare 2 t.real ["dy_N"] none none .joined,
      .call 2 "eval_spec_rates" true
        [.var "fwd_rates", .var "rev_rates", .var "pres_mod", fractionsAddress t "dy",
          .address (.var "dy_N")], .blank,
      ← workArray t "cv" n "cp",
      .call 2 "eval_cv" false [stateTemperature, .var "cv"], .blank,
      .slashRemark " constant volume mass-average specific heat"],
    averageHeat t "cv_avg" heat,
    [.slashRemark " local array for species internal energies", ← workArray t "u" n "h",
      .call 2 "eval_u" true [stateTemperature, .var "u"], .blank],
    ← derivativeEnd t species produced "u" "cv_avg"]

def derivativeSignature (t : Target) (givenType given memoryType : String) :
    Except Fault Signature := do
  let memory := memoryType ++ (← t.language.noAlias)
  return {
    mark := t.mark
    name := "dydt"
    params := [⟨"const double", "t"⟩, ⟨givenType, given⟩, ⟨← t.inputType, "y"⟩, ⟨← t.outputType, "dy"⟩]
      ++ (if t.onDevice then [⟨memory, "d_mem"⟩] else []) }

def derivativeHeader (t : Target) : Except Fault (SourceFile α) := do
  let suffix ← t.language.headerSuffix
  return {
    path := t.fileStart ++ "dydt" ++ suffix
    language := t.language
    parts := [
      .text ("#ifndef DYDT_HEAD\n#define DYDT_HEAD\n\n#include \"header" ++ suffix ++ "\"\n\n"
        ++ t.realIncludes),
      .prototype (← derivativeSignature t t.referenceType "pres" "const mechanism_memory * "),
      .text "\n#endif\n"] }

def derivativeSource (t : Target) (species : List (Species α)) (reactions : List (Reaction Nat α))
    (produced : List Bool) : Except Fault (SourceFile α) := do
  let suffix ← t.language.headerSuffix
  return {
    path := t.fileStart ++ "dydt" ++ t.language.sourceSuffix
    language := t.language
    parts := [
      .text ("#include \"header" ++ suffix ++ "\"\n#include \"" ++ t.fileStart ++ "chem_utils" ++ suffix
        ++ "\"\n#include \"" ++ t.fileStart ++ "rates" ++ suffix ++ "\"\n"
        ++ (if t.onDevice then "#include \"gpu_memory.cuh\"\n" else "") ++ "\n" ++ t.realIncludes),
      .text "#if defined(CONP)\n\n",
      .function (← derivativeSignature t t.referenceType "pres" "const mechanism_memory * ")
        ((← constantPressureBody t species reactions produced).map .step) "\x7d // end dydt\n\n",
      .text "#elif defined(CONV)\n\n",
      .function (← derivativeSignature t t.scalarType "rho" "mechanism_memory * ")
        ((← constantVolumeBody t species reactions produced).map .step) "\x7d // end dydt\n\n",
      .text "#endif\n"] }

def derivativeFiles (t : Target) (species : List (Species α)) (reactions : List (Reaction Nat α))
    (produced : List Bool) : Except Fault (List (SourceFile α)) := do
  return [← derivativeHeader t, ← derivativeSource t species reactions produced]

end Kinetics.Emit
