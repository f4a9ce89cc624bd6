import Kinetics.Emit.Target
import Kinetics.Mechanism.Reaction
/-!
# The file of mixture and species properties

Concentrations from temperature, mass fractions and either pressure or density; enthalpies,
internal energies and specific heats of all species.
-/

namespace Kinetics.Emit

open Code

variable {α : Type} [Arithmetic α]

/-! ## Mixtures -/

def lastFraction (n : Nat) : Step α :=
  .set (.pointee "y_N" false) (1.0 - .group (sumOf { breakBefore := .past 15 }
    ((List.range (n - 1)).map fun (i : Nat) => .cell "y" i)))

def reciprocal (weight : α) : Except Fault (Expr α) := do
  return .full (← Arithmetic.inverse weight)

/-- The average molecular weight: the reciprocal of the sum of fractions over weights. -/
def averageWeight (species : List (Species α)) : Except Fault (List (Step α)) := do
  let terms ← species.dropLast.zipIdx.mapM fun (s, (i : Nat)) => do
    return .group (.cell "y" i * (← reciprocal s.weight))
  let last := .group (.pointee "y_N" true * (← reciprocal (← lastEntry species).weight))
  return [
    .set (.pointee "mw_avg" false) (sumOf { breakBefore := .past 5 } terms + last),
    .set (.pointee "mw_avg" false) (1.0 / .pointee "mw_avg" false)]

def concentrations (density : Expr α) (species : List (Species α)) : Except Fault (List (Step α)) := do
  let steps ← species.dropLast.zipIdx.mapM fun (s, (i : Nat)) => do
    return .set (.cell "conc" i) (density * .cell "y" i * (← reciprocal s.weight))
  let last ← lastEntry species
  return steps ++ [.set (.cell "conc" (species.length - 1 : Int))
    (density * .pointee "y_N" true * (← reciprocal last.weight)), .blank]

def concentrationBody (species : List (Species α)) : Except Fault (List (Step α)) := do
  return [.blank, .slashRemark " mass fraction of final species", lastFraction species.length]
    ++ (← averageWeight species)
    ++ [.slashRemark " mass-averaged density",
      .set (.pointee "rho" false)
        (.pres * .pointee "mw_avg" true / .group (.sci 8 gasConstant * .T))]
    ++ (← concentrations (.pointee "rho" true) species)

def concentrationRhoBody (species : List (Species α)) : Except Fault (List (Step α)) := do
  return [.blank, .slashRemark " mass fraction of final species", lastFraction species.length]
    ++ (← averageWeight species)
    ++ [.slashRemark " pressure",
      .set (.pointee "pres" false)
        (.var "rho" * .sci 8 gasConstant * .T / .pointee "mw_avg" true)]
    ++ (← concentrations (.var "rho") species)

/-! ## Species properties -/

def nested : List (Expr α) → Expr α
  | [] => .hole
  | [a] => a
  | [a, b] => a + b * .T
  | a :: rest => a + .T * .group (nested rest)

def integrated (p : Nasa α) : List (Expr α) :=
  [.full (Arithmetic.part p.a2 2), .full (Arithmetic.part p.a3 3), .full (Arithmetic.part p.a4 4),
    .full (Arithmetic.part p.a5 5)]

def enthalpyPolynomial (p : Nasa α) : Expr α := nested (.full p.a6 :: .full p.a1 :: integrated p)

def energyPolynomial (p : Nasa α) : Expr α :=
  nested (.full p.a6 :: (.full p.a1 - 1.0) :: integrated p)

def cpPolynomial (p : Nasa α) : Expr α :=
  nested [.full p.a1, .full p.a2, .full p.a3, .full p.a4, .full p.a5]

def cvPolynomial (p : Nasa α) : Expr α :=
  nested [.full p.a1 - 1.0, .full p.a2, .full p.a3, .full p.a4, .full p.a5]

def propertyItems (array : String) (polynomial : Nasa α → Expr α) (species : List (Species α)) :
    Except Fault (List (Item α)) := do
  let items ← species.zipIdx.mapM fun (s, (i : Nat)) => do
    let specific := .full (← Arithmetic.div gasConstant s.weight)
    let value := fun p => Step.assign 4 (.cell array i) .set (specific * .group (polynomial p))
    return .split 2 (.atMost "T" .shortest s.midpoint) [value s.low] [value s.high]
  return .step .blank :: items

/-! ## Files -/

def concentrationSignature (t : Target) (name given found : String) : Except Fault Signature := do
  let input ← t.inputType
  let output ← t.outputType
  return {
    mark := t.mark
    name
    params := [⟨t.referenceType, "T"⟩, ⟨t.referenceType, given⟩, ⟨input, "y"⟩, ⟨output, "y_N"⟩,
      ⟨output, "mw_avg"⟩, ⟨output, found⟩, ⟨output, "conc"⟩] }

def propertySignature (t : Target) (property : String) : Except Fault Signature := do
  return {
    mark := t.mark
    name := "eval_" ++ property
    params := [⟨t.referenceType, "T"⟩, ⟨← t.outputType, property⟩] }

def thermodynamicsHeader (t : Target) : Except Fault (SourceFile α) := do
  let suffix ← t.language.headerSuffix
  return {
    path := t.fileStart ++ "chem_utils" ++ suffix
    language := t.language
    parts := [
      .text ("#ifndef CHEM_UTILS_HEAD\n#define CHEM_UTILS_HEAD\n\n#include \"header" ++ suffix
        ++ "\"\n\n" ++ t.realIncludes ++ (if t.onDevice then "#include \"gpu_memory.cuh\"\n" else "")),
      .prototype (← concentrationSignature t "eval_conc" "pres" "rho"),
      .prototype (← concentrationSignature t "eval_conc_rho" "rho" "pres"),
      .prototype (← propertySignature t "h"),
      .prototype (← propertySignature t "u"),
      .prototype (← propertySignature t "cv"),
      .prototype (← propertySignature t "cp"),
      .text "\n#endif\n"] }

def thermodynamicsSource (t : Target) (species : List (Species α)) : Except Fault (SourceFile α) := do
  let suffix ← t.language.headerSuffix
  let property := fun name polynomial => do
    return FilePart.function (← propertySignature t name) (← propertyItems name polynomial species)
      ("\x7d // end eval_" ++ name ++ "\n\n")
  return {
    path := t.fileStart ++ "chem_utils" ++ t.language.sourceSuffix
    language := t.language
    parts := [
      .text ("#include \"header" ++ suffix ++ "\"\n#include \"" ++ t.fileStart ++ "chem_utils" ++ suffix
        ++ "\"\n" ++ t.realIncludes ++ "\n"),
      .function (← concentrationSignature t "eval_conc" "pres" "rho")
        ((← concentrationBody species).map .step) "\x7d // end eval_conc\n\n",
      .function (← concentrationSignature t "eval_conc_rho" "rho" "pres")
        ((← concentrationRhoBody species).map .step) "\x7d // end eval_conc\n\n",
      ← property "h" enthalpyPolynomial,
      ← property "u" energyPolynomial,
      ← property "cv" cvPolynomial,
      ← property "cp" cpPolynomial] }

def thermodynamicsFiles (t : Target) (species : List (Species α)) :
    Except Fault (List (SourceFile α)) := do
  return [← thermodynamicsHeader t, ← thermodynamicsSource t species]

end Kinetics.Emit
