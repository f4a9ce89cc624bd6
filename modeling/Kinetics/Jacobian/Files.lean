import Kinetics.Emit.StateDerivative
import Kinetics.Jacobian.Finish
/-!
# The files of the Jacobian

The main function evaluates rates and enthalpies and fills the matrix. If there are many
reactions, the statements of the reaction loop and of the finishing loop go into numbered
functions with files of their own, which the main function calls. A file that gets too long makes
the batches shorter.
-/

namespace Kinetics.Jacobian

open Code Emit

variable {α : Type} [Arithmetic α]

structure Limits where
  /-- More reactions than this are split into batches of this length. -/
  reactionBatch : Int
  /-- The number of lines that the first file of reactions may have. -/
  reactionLines : Int
  speciesBatch : Int
  /-- The number of lines that a file of species may have. -/
  speciesLines : Int
  deriving Repr, DecidableEq, Inhabited

def Limits.host : Limits := ⟨40, 50000, 40, 50000⟩

def Limits.device : Limits := ⟨40, 10000, 40, 5000⟩

/-! ## What a function needs -/

structure Needs where
  reversible : Bool := false
  falloff : Bool := false
  modificationSlope : Bool := false
  total : Bool := false
  thirdBody : Bool := false
  troe : Bool := false
  sri : Bool := false
  chebyshev : Bool := false
  terms : Int := 0
  plog : Bool := false
  unshared : Bool := false
  lastSpecies : Bool := false
  deriving Repr, DecidableEq, Inhabited

def needsOf (n : Nat) (all members : List (Reaction Nat α)) (unshared : Bool) :
    Except Fault Needs := do
  let last ← members.mapM (Reaction.changesLast n)
  let chebyshev := members.any (·.chebyshev)
  return {
    reversible := members.any (·.reversible)
    falloff := members.any (·.falloff)
    modificationSlope := members.any needsModificationSlope
    total := members.any fun r => r.falloff && r.collider.isNone
    thirdBody := members.any (·.thirdBody)
    troe := members.any (·.troe)
    sri := members.any (·.sri)
    chebyshev
    terms := if chebyshev then chebyshevSize all else 0
    plog := members.any (·.plog)
    unshared
    lastSpecies := last.any id }

def rateArrays (reactions : List (Reaction Nat α)) : List String :=
  ["fwd_rates"] ++ (if reactions.any (·.reversible) then ["rev_rates"] else [])
    ++ (if reactions.any (·.isModified) then ["pres_mod"] else []) ++ ["spec_rates"]

def zeroed (t : Target) (name : String) : Step α := t.localReal name (some 0.0)

def plainDouble (name : String) (value : Option (Expr α)) : Step α :=
  .declare 2 "double" [name] none value .semicolon

def troeDeclarations : List (Step α) :=
  ["Fcent", "A", "B", "lnF_AB"].map fun name => plainDouble name (some 0.0)

def chebyshevDeclarations : List (Step α) :=
  [.declare 2 "double" ["Tred", "Pred"] none none .semicolon,
    .declare 2 "double" ["cheb_temp_0", "cheb_temp_1"] none none .semicolon]

/-! ## Functions of reactions -/

/-- The head of a numbered function of reactions, with the type of its last array. -/
def batchSignature (t : Target) (number : Int) (rates : List String) (needs : Needs)
    (lastArray : String) : Except Fault Signature := do
  let qualifier ← t.language.noAlias
  let input := "const double * " ++ qualifier
  let output := "double * " ++ qualifier
  return {
    mark := t.mark
    name := "eval_jacob_" ++ toString number
    params := [⟨"const double", "pres"⟩, ⟨input, "conc"⟩]
      ++ (rates.map fun name => ⟨input, name⟩)
      ++ (if needs.total then [⟨"const double", "m"⟩] else [])
      ++ [⟨"const double", "mw_avg"⟩, ⟨"const double", "rho"⟩]
      ++ (if needs.reversible then [⟨input, "dBdT"⟩] else [])
      ++ [⟨"const double", "T"⟩, ⟨output, "jac"⟩]
      ++ (if needs.lastSpecies then
          [⟨output, "J_nplusone"⟩, ⟨lastArray ++ qualifier, "J_nplusjplus"⟩] else [])
      ++ (if needs.chebyshev && t.onDevice then [⟨output, "dot_prod"⟩] else []) }

def batchDeclarations (t : Target) (needs : Needs) : List (Step α) :=
  (if !needs.unshared && t.onDevice then [.line (Accelerator.Bank.declaration 2)] else [])
    ++ (if needs.falloff then [t.localReal "conc_temp" none] else [])
    ++ [t.localReal "logT" (some (.log .T)), zeroed t "kf", zeroed t "j_temp"]
    ++ (if needs.modificationSlope then [zeroed t "pres_mod_temp"] else [])
    ++ (if needs.reversible then [zeroed t "Kc", zeroed t "kr"] else [])
    ++ (if needs.falloff then [zeroed t "Pr"] else [])
    ++ (if needs.troe then troeDeclarations else [])
    ++ (if needs.sri then [plainDouble "X" (some 0.0)] else [])
    ++ (if needs.chebyshev then
        chebyshevDeclarations
          ++ (if t.onDevice then []
            else [.declare 2 "double" ["dot_prod"] (some needs.terms) none .semicolon])
      else [])
    ++ (if needs.plog then [plainDouble "kf2" none] else [])
    ++ [plainDouble "rho_inv" (some (1.0 / .var "rho"))]

def batchGuard (t : Target) (number : Int) : Except Fault String := do
  let n := toString number
  return "#ifndef JACOB_HEAD_" ++ n ++ "\n#define JACOB_HEAD_" ++ n ++ "\n\n#include \"header"
    ++ (← t.language.headerSuffix) ++ "\"\n\n"

def batchPath (number : Int) : String := "jacob_" ++ toString number

/-- Header and source of a numbered function. -/
def numberedFiles (t : Target) (folder : String) (number : Int) (lead : String)
    (prototype head : Except Fault Signature) (declarations : List (Step α)) (body : List (Item α))
    (closing : String) : Except Fault (List (SourceFile α)) := do
  let suffix ← t.language.headerSuffix
  let path := folder ++ batchPath number
  return [
    { path := path ++ suffix
      language := t.language
      parts := [.text (← batchGuard t number), .prototype (← prototype), .text "\n#endif\n"] },
    { path := path ++ t.language.sourceSuffix
      language := t.language
      parts := [.text (lead ++ "#include \"header" ++ suffix ++ "\"\n\n"),
        .function (← head) (declarations.map .step ++ body) closing] }]

def reactionFiles (t : Target) (folder : String) (number : Int) (rates : List String)
    (needs : Needs) : List (Item α) → String → Except Fault (List (SourceFile α)) :=
  let head := batchSignature t number rates needs
  numberedFiles t folder number "#include <math.h>\n" (head "double* ") (head "double * ")
    (batchDeclarations t needs)

def reactionCall (t : Target) (number : Int) (rates : List String) (needs : Needs) : Step α :=
  .call 2 ("eval_jacob_" ++ toString number) false
    (List.flatten [
      [.pres, .var "conc"],
      rates.map .var,
      if needs.total then [.var "m"] else [],
      [.var "mw_avg", .var "rho"],
      if needs.reversible then [.var "dBdT"] else [],
      [.T, .var "jac"],
      if needs.lastSpecies then [.address (.var "J_nplusone"), .var "J_nplusjplus"] else [],
      if needs.chebyshev && t.onDevice then [.var "dot_prod"] else []])

/-! ## Functions of species -/

def finishSignature (t : Target) (number : Int) (lastSpecies : Bool) : Signature where
  mark := t.mark
  name := "eval_jacob_" ++ toString number
  params := [⟨"const double", "mw_avg"⟩, ⟨"const double", "rho"⟩, ⟨"const double", "cp_avg"⟩,
      ⟨"const double*", "spec_rates"⟩, ⟨"const double*", "h"⟩, ⟨"const double*", "cp"⟩,
      ⟨"double*", "jac"⟩]
    ++ (if lastSpecies then [⟨"double*", "J_nplusjplus"⟩] else [])

def finishFiles (t : Target) (folder : String) (number : Int) (lastSpecies : Bool) :
    List (Item α) → String → Except Fault (List (SourceFile α)) :=
  let head := .ok (finishSignature t number lastSpecies)
  numberedFiles t folder number "" head head
    [t.localReal "rho_inv" (some (1.0 / .var "rho")),
      plainDouble "working_temp" (some (.group (1.0 / .var "cp_avg"))),
      plainDouble "j_temp" (some (1.0 / .group (.var "rho" * .var "cp_avg" * .var "cp_avg")))]

def finishCall (number : Int) (lastSpecies : Bool) : Step α :=
  .call 2 ("eval_jacob_" ++ toString number) false
    (List.flatten [
      [.var "mw_avg", .var "rho", .var "cp_avg", .var "spec_rates", .var "h", .var "cp", .var "jac"],
      if lastSpecies then [.var "J_nplusjplus"] else []])

/-! ## Batches -/

/-- What the split loops produced: calls, files, the number of functions that are called, and
whether the last file also took the rest of the main function. -/
structure Split (α : Type) where
  calls : List (Step α) := []
  files : List (SourceFile α) := []
  count : Nat := 0
  tookRest : Bool := false
  deriving Inhabited

def Split.add (s : Split α) (files : List (SourceFile α)) (call : Step α) : Split α :=
  { s with calls := s.calls ++ [call], files := s.files ++ files, count := s.count + 1 }

def sourceLines [Written α] (files : List (SourceFile α)) : Nat :=
  match files.getLast? with
  | some f => lineCount f.text
  | none => 0

def batchClosing : String := "\x7d\n\n"

def mainClosing : String := "\x7d // end eval_jacob\n\n"

def reactionBatches (t : Target) (e : LoopSetting α) :
    List Batch → LoopState α → Split α → Except Fault (LoopState α × Split α)
  | [], s, out => .ok (s, out)
  | batch :: rest, s, out => do
    let rates := rateArrays e.reactions
    let declared := (e.reactions.take batch.declared).drop batch.start
    let needs ← needsOf e.species.length e.reactions declared t.bank.isNone
    let (s, items) ← reactionRun e { s with excess := none } (batch.members e.reactions)
    let files ← reactionFiles t "jacobs/" out.count rates needs items batchClosing
    reactionBatches t e rest s (out.add files (reactionCall t out.count rates needs))

/-- The functions of all reactions, in batches of a length that is halved as long as the first
file is too long. A file of all reactions that is too long is kept but not called. -/
def splitReactions [Written α] (t : Target) (lines : Int) (e : LoopSetting α) (length : Nat) :
    Except Fault (LoopState α × Split α) := do
  let all := batches length e.reactions.length
  let (s, out) ← reactionBatches t e all { bank := t.freshBank } {}
  let first := out.files.take 2
  if lines < (sourceLines first : Int) then
    if length = 0 then return (s, { files := first })
    else splitReactions t lines e (length / 2)
  else return (s, out)
termination_by length
decreasing_by omega

structure FinishSetting (α : Type) where
  target : Target
  species : List (Species α)
  produced : List Bool
  progress : Progress
  lines : Int
  deriving Inhabited

def FinishSetting.lastWritten (e : FinishSetting α) : Bool :=
  e.progress.composition.contains (e.species.length - 1)

/-- The functions of consecutive batches of species, up to the first file that is too long; the
result says whether all species are covered. -/
def finishBatches [Written α] (e : FinishSetting α) :
    List Batch → Split α → Except Fault (Bool × Split α)
  | [], out => .ok (true, out)
  | batch :: rest, out => do
    let isLast := batch.stop == e.species.length
    let lastSpecies := isLast && e.lastWritten
    let steps ← finishRun e.species e.produced e.progress (batch.members e.species)
    let files ← finishFiles e.target "jacobs/" out.count lastSpecies (steps.map .step) batchClosing
    if e.lines < (sourceLines files : Int) then
      return (isLast, { out with files := out.files ++ files })
    else finishBatches e rest (out.add files (finishCall out.count lastSpecies))

/-- The functions of all species. Batches start anew with half the length when a file is too long;
functions that were complete by then stay. Batches without length end in one open function, which
takes the rest of the main function. -/
def splitSpecies [Written α] (e : FinishSetting α) (rest : List (Item α)) (length : Nat)
    (out : Split α) : Except Fault (Split α) := do
  if length = 0 then
    let steps ← finishRun e.species e.produced e.progress e.species.zipIdx
    let files ← finishFiles e.target "jacobs/" out.count false (steps.map .step ++ rest) mainClosing
    return { out with files := out.files ++ files, tookRest := true }
  else
    let (complete, out) ← finishBatches e (batches length e.species.length) out
    if complete then return out else splitSpecies e rest (length / 2) out
termination_by length
decreasing_by omega

/-! ## The main function -/

def mainStart (t : Target) (species : List (Species α)) (reactions : List (Reaction Nat α)) :
    Except Fault (List (Step α)) := do
  let n := species.length
  let reversible := reactions.countP (·.reversible)
  let modified := reactions.countP (·.isModified)
  let sums := passesPartialSums t reactions
  let partialSums ← workArray t "dot_prod" 0 "dot_prod"
  let rates ← workArray t "spec_rates" n "spec_rates"
  let concentrations ← workArray t "conc" n "conc"
  let forward ← workArray t "fwd_rates" reactions.length "fwd_rates"
  let reverse ← if reversible = 0 then pure (nullArray t "rev_rates")
    else workArray t "rev_rates" reversible "rev_rates"
  let modification ← if modified = 0 then pure (nullArray t "pres_mod")
    else workArray t "pres_mod" modified "pres_mod"
  return List.flatten [
    [.blank],
    if t.freshBank.isSome then [.line (Accelerator.Bank.declaration 2)] else [],
    [plainDouble "T" (some (.cell "y" 0)), .blank,
      .remark " average molecular weight", plainDouble "mw_avg" none,
      .remark " mass-averaged density", plainDouble "rho" none,
      .remark " species molar concentrations", concentrations,
      plainDouble "y_N" none,
      .call 2 "eval_conc" false [.cell "y" 0, .pres, fractionsAddress t "y", .address (.var "y_N"),
        .address (.var "mw_avg"), .address (.var "rho"), .var "conc"], .blank,
      .remark " evaluate reaction rates", forward, reverse],
    if sums then [partialSums] else [],
    [.call 2 "eval_rxn_rates" true ([.T, .pres, .var "conc", .var "fwd_rates", .var "rev_rates"]
        ++ (if sums then [.var "dot_prod"] else [])), .blank, modification],
    if modified = 0 then []
      else [.remark "get pressure modifications to reaction rates",
        .call 2 "get_rxn_pres_mod" true [.T, .pres, .var "conc", .var "pres_mod"]],
    [.blank, .remark " evaluate rate of change of species molar concentration"],
    if t.onDevice then [rates]
      else [plainDouble ("spec_rates[" ++ toString n ++ "]") (some (.var "\x7b0\x7d"))],
    [.call 2 "eval_spec_rates" true [.var "fwd_rates", .var "rev_rates", .var "pres_mod",
        .var "spec_rates", .address (.cell "spec_rates" (n - 1 : Int))], .blank]]

def loopDeclarations (t : Target) (reactions : List (Reaction Nat α)) :
    Except Fault (List (Step α)) := do
  let partialSums ←
    if t.onDevice then workArray t "dot_prod" 0 "dot_prod"
    else pure (.declare 2 "double" ["dot_prod"] (some (chebyshevSize reactions)) none .semicolon)
  return [zeroed t "j_temp", zeroed t "kf"]
    ++ (if reactions.any needsModificationSlope then [zeroed t "pres_mod_temp"] else [])
    ++ (if reactions.any (·.reversible) then [zeroed t "Kc", t.localReal "kr" (some 0)] else [])
    ++ (if reactions.any (·.falloff) then [zeroed t "Pr"] else [])
    ++ (if reactions.any (·.troe) then troeDeclarations else [])
    ++ (if reactions.any (·.sri) then [plainDouble "X" (some 0.0)] else [])
    ++ (if reactions.any (·.chebyshev) then chebyshevDeclarations ++ [partialSums] else [])
    ++ (if reactions.any (·.plog) then [plainDouble "kf2" none] else [])
    ++ [t.localReal "rho_inv" (some (1.0 / .var "rho"))]

/-- The total concentration and the variables that do not depend on where the loop stands. -/
def mainDeclarations (t : Target) (split : Bool) (species : List (Species α))
    (reactions : List (Reaction Nat α)) : Except Fault (List (Step α)) := do
  let total := reactions.any fun r => (r.falloff && r.collider.isNone) || r.thirdBody
  let last ← reactions.mapM (Reaction.changesLast species.length)
  let work ← if split then pure [] else loopDeclarations t reactions
  let lastColumn ←
    if t.onDevice then workArray t "J_nplusjplus" 0 "J_nplusjplus"
    else pure (plainDouble "J_nplusjplus[NSP]" none)
  return (if total then
      t.localReal "m" (some (.pres / .group (.sci 8 gasConstant * .T))) ::
        (if split then [] else [t.localReal "conc_temp" none])
      else [])
    ++ [t.localReal "logT" (some (.log .T))] ++ work
    ++ (if last.any id then [plainDouble "J_nplusone" (some 0), lastColumn] else [])

def mainMiddle (t : Target) (split : Bool) (species : List (Species α)) :
    Except Fault (List (Step α)) := do
  let n := species.length
  return [.remark " species enthalpies", ← workArray t "h" n "h",
      .call 2 "eval_h" false [.T, .var "h"], .blank,
      .remark " species specific heats", ← workArray t "cp" n "cp",
      .call 2 "eval_cp" false [.T, .var "cp"], .blank,
      .remark " average specific heat", t.localReal "cp_avg" none,
      .setVar "cp_avg" (averageCapacity species),
      .set (.cell "jac" 0) 0.0]
    ++ (if split then [plainDouble "working_temp" (some 0)]
      else [t.localReal "working_temp" (some (.group (1.0 / .var "cp_avg"))),
        .setVar "j_temp" (1.0 / .group (.var "rho" * .var "cp_avg" * .var "cp_avg"))])
    ++ finishRemarks

def mainRest (species : List (Species α)) (progress : Progress) :
    Except Fault (List (Item α)) := do
  let lastTouched := progress.temperature.contains (species.length - 1)
  return (← heatCapacityItems species) ++ [.step .blank]
    ++ (energyCompletion species lastTouched).map .step

def mainSignature (t : Target) : Except Fault Signature := do
  let qualifier ← t.language.noAlias
  return {
    mark := t.mark
    name := "eval_jacob"
    params := [⟨"const double", "t"⟩, ⟨"const double", "pres"⟩, ⟨"const double * " ++ qualifier, "y"⟩,
        ⟨"double * " ++ qualifier, "jac"⟩]
      ++ (if t.onDevice then [⟨"const mechanism_memory * " ++ qualifier, "d_mem"⟩] else []) }

def mainHeader (t : Target) (split : Bool) : Except Fault (SourceFile α) := do
  let suffix ← t.language.headerSuffix
  let bring := fun name => "#include \"" ++ name ++ suffix ++ "\"\n"
  return {
    path := "jacob" ++ suffix
    language := t.language
    parts := [
      .text ("#ifndef JACOB_HEAD\n#define JACOB_HEAD\n\n" ++ bring "header"
        ++ (if split then bring "jacobs/jac_include" else "")
        ++ bring "chem_utils" ++ bring "rates"
        ++ (if t.onDevice then bring "gpu_memory" ++ "\n" else "")),
      .prototype (← mainSignature t),
      .text "\n#endif\n"] }

/-- The header that brings in all numbered functions, and the list of their files. -/
def splitIndex (t : Target) (count : Nat) : Except Fault (List (SourceFile α)) := do
  let suffix ← t.language.headerSuffix
  let numbers := List.range count
  let lines := numbers.map fun (i : Nat) => "#include \"" ++ batchPath i ++ suffix ++ "\"\n"
  return [
    { path := "jacobs/jac_include" ++ suffix
      language := t.language
      parts := [.text ("#ifndef JAC_INCLUDE_H\n#define JAC_INCLUDE_H\n" ++ String.join lines
        ++ "#endif\n\n")] },
    { path := "jacobs/jac_list_" ++ t.language.name
      language := t.language
      parts := [.text (String.intercalate " "
        (numbers.map fun (i : Nat) => batchPath i ++ t.language.sourceSuffix))] }]

/-- All files of the Jacobian, and which entries of the matrix are written. Later files replace
earlier ones with the same path. -/
def jacobianFiles [Written α] (t : Target) (limits : Limits) (species : List (Species α))
    (reactions : List (Reaction Nat α)) (produced : List Bool) :
    Except Fault (List (SourceFile α) × List Bool) := do
  if !t.language.isBraced then throw (.unset "batches")
  let split := decide (limits.reactionBatch < (reactions.length : Int))
  let header ← mainHeader t split
  let start ← mainStart t species reactions
  let declarations ← mainDeclarations t split species reactions
  let equilibrium ← equilibriumSlopeItems t.language species reactions
  if reactions.isEmpty then throw (.unset "reaction")
  let e : LoopSetting α := ⟨species, reactions, split⟩
  let (state, loop, parts) ←
    if split then do
      let (state, parts) ← splitReactions t limits.reactionLines e limits.reactionBatch.toNat
      pure (state, parts.calls.map Item.step, parts)
    else do
      let (state, items) ← reactionRun e { bank := t.freshBank } reactions.zipIdx
      pure (state, items, {})
  if species.isEmpty then throw .missingEntry
  let middle ← mainMiddle t split species
  let rest ← mainRest species state.progress
  let (finish, parts) ←
    if split then do
      let f : FinishSetting α := ⟨t, species, produced, state.progress, limits.speciesLines⟩
      let before := parts.calls.length
      let parts ← splitSpecies f rest limits.speciesBatch.toNat parts
      pure (parts.calls.drop before, parts)
    else do pure (← finishRun species produced state.progress species.zipIdx, parts)
  let index ← if split then splitIndex t parts.count else pure []
  let body := (start ++ declarations).map Item.step ++ equilibrium ++ loop
    ++ (middle ++ finish).map Item.step ++ (if parts.tookRest then [] else rest)
  let main := {
    path := "jacob" ++ t.language.sourceSuffix
    language := t.language
    parts := [.text ("#include \"jacob" ++ (← t.language.headerSuffix) ++ "\"\n\n"),
      .function (← mainSignature t) body (if parts.tookRest then "" else mainClosing)] }
  return ([header, main] ++ parts.files ++ index, writtenEntries species.length state.progress)

end Kinetics.Jacobian
