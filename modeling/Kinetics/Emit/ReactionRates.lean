import Kinetics.Code.Placement
import Kinetics.Emit.Target
import Kinetics.Rate.Chebyshev
import Kinetics.Rate.Equilibrium
import Kinetics.Rate.Plog
/-!
# The file of reaction rates

Forward and reverse rates of progress of every reaction, without pressure modifications. On the
accelerator a long list of reactions is split into batches, each with a file of its own that the
main function calls.
-/

namespace Kinetics.Emit

open Code Rate

variable {α : Type} [Arithmetic α]

/-! ## Statements of one reaction -/

def productOf : List (Expr α × Gap) → Expr α → Expr α
  | [], last => last
  | (e, gap) :: rest, last =>
    let (product, gap) := rest.foldl (fun (p, g) (f, h) => (.binary .times g p f, h)) (e, gap)
    .binary .times gap product last

/-- A concentration raised to a coefficient: a repeated factor if the coefficient is whole, a
power followed by `gap` otherwise. -/
def concentrationFactors (gap : Gap) (s : Nat) (nu : α) : List (Expr α × Gap) :=
  if Arithmetic.isWhole nu then
    List.replicate (Arithmetic.wholePart nu).toNat (.cell "C" s, {})
  else [(.pow (.cell "C" s) (.plain nu), gap)]

def keepsRateConstant (r : Reaction Nat α) : Bool :=
  (r.reversible && r.reverse.isEmpty) || r.plog || r.chebyshev

def rateConstantItems (r : Reaction Nat α) : Except Fault (List (Item α)) := do
  if r.reversible && r.reverse.isEmpty && !(r.chebyshev || r.plog) then
    return [.step (.setVar "kf" (← arrhenius r.A r.b r.E))]
  else if r.chebyshev then return (← chebyshevRate r false).map .step
  else if r.plog then return [← plogRate r]
  else return []

def forwardRate (r : Reaction Nat α) (i : Nat) : Except Fault (Step α) := do
  let factors ← r.reactants.zipIdx.mapM fun (s, k) => do
    return concentrationFactors { after := 0 } s (← entryAt r.reactantNu k)
  let constant ← if keepsRateConstant r then pure (.var "kf") else arrhenius r.A r.b r.E
  return .set (.cell "fwd_rxn_rates" i) (productOf factors.flatten constant)

def reverseRate (r : Reaction Nat α) (j : Nat) : Except Fault (Step α) := do
  let factors ← r.products.mapM fun s => do
    return concentrationFactors {} s (← Reaction.coefficient r.products r.productNu s)
  let value ←
    if r.reverse.isEmpty then pure (productOf factors.flatten (.var "kf") / .var "Kc")
    else do pure (productOf factors.flatten (← arrheniusOf r.reverse))
  return .set (.cell "rev_rxn_rates" j) value

def runLength {β : Type} (test : β → Bool) (xs : List β) (i : Nat) : Nat :=
  ((xs.drop (i + 1)).takeWhile test).length

def rateLoads (reactions : List (Reaction Nat α)) (r : Reaction Nat α) (i : Nat) : Item α :=
  .load ((participants r).map fun (s : Nat) =>
    (("C", some (s : Int)),
      Arithmetic.ofInt (runLength (fun q => q.reactants.contains s || q.products.contains s)
        reactions i)))

def reverseRank (reactions : List (Reaction Nat α)) (i : Nat) : Nat :=
  (reactions.take i).countP (·.reversible)

/-- All statements for the reaction at position `i`, announced with the label `label`. -/
def reactionRateItems (species : List (Species α)) (reactions : List (Reaction Nat α))
    (label : Int) (r : Reaction Nat α) (i : Nat) : Except Fault (List (Item α)) := do
  let constant ← rateConstantItems r
  let forward ← forwardRate r i
  let backward ←
    if r.reversible then do
      let equilibrium ← if r.reverse.isEmpty then equilibriumItems species r else pure []
      let rate ← reverseRate r (reverseRank reactions i)
      pure (equilibrium ++ [.step rate, .step .blank])
    else pure []
  return [.step (.remark ("rxn " ++ toString label)), rateLoads reactions r i]
    ++ constant ++ [.step forward] ++ backward

/-! ## Declarations -/

def chebyshevSize (reactions : List (Reaction Nat α)) : Int :=
  (reactions.filter (·.chebyshev)).foldl (fun n r => max n r.temperatureTerms)
    (match reactions.find? (·.chebyshev) with
      | some r => r.temperatureTerms
      | none => 0)

def rateDeclarations (t : Target) (anyReversible : Bool) (reactions : List (Reaction Nat α)) :
    List (Step α) :=
  let equilibrium := anyReversible && reactions.any (·.reverse.isEmpty)
  let chebyshev := reactions.any (·.chebyshev)
  let plog := reactions.any (·.plog)
  let kf := t.localReal "kf" none
  (if equilibrium then [kf, t.localReal "Kc" none] else [])
    ++ (if chebyshev then
        (if equilibrium then [] else [kf])
          ++ [t.localReal "Tred" none, t.localReal "Pred" none,
            .declare 2 (if t.onDevice then "double" else t.real) ["cheb_temp_0", "cheb_temp_1"] none
              none .semicolon]
          ++ (if t.onDevice then []
            else [.declare 2 t.real ["dot_prod"] (some (chebyshevSize reactions)) none .semicolon])
      else [])
    ++ (if plog then
        (if equilibrium || chebyshev then [] else [kf]) ++ [t.localReal "kf2" none]
      else [])

def rateIntro (t : Target) (anyReversible : Bool) (reactions : List (Reaction Nat α)) :
    List (Step α) :=
  List.flatten [
    if t.bank.isSome then [.line (Accelerator.Bank.declaration 2)] else [],
    [.declare 2 ((if t.onDevice then "register " else "") ++ t.real) ["logT"] none
      (some (.log .T)) .semicolon, .blank],
    rateDeclarations t anyReversible reactions,
    [.blank]]

/-! ## Files -/

def passesPartialSums (t : Target) (reactions : List (Reaction Nat α)) : Bool :=
  t.onDevice && reactions.any (·.chebyshev)

/-- The head of the function that evaluates reactions, with a suffix to its name. -/
def rateSignature (t : Target) (reactions : List (Reaction Nat α)) (suffix : String)
    (spaced : Bool) : Except Fault Signature := do
  let input ← t.inputType
  let output ← t.outputType
  return {
    mark := t.mark
    name := "eval_rxn_rates" ++ suffix
    spaced
    params := [⟨t.scalarType, "T"⟩, ⟨t.referenceType, "pres"⟩, ⟨input, "C"⟩,
        ⟨output, "fwd_rxn_rates"⟩, ⟨output, "rev_rxn_rates"⟩]
      ++ (if passesPartialSums t reactions then [⟨output, "dot_prod"⟩] else []) }

def speciesRateSignature (t : Target) : Except Fault Signature := do
  let input ← t.inputType
  let output ← t.outputType
  return {
    mark := t.mark
    name := "eval_spec_rates"
    params := [⟨input, "fwd_rates"⟩, ⟨input, "rev_rates"⟩, ⟨input, "pres_mod"⟩,
      ⟨output, "sp_rates"⟩, ⟨output, "dy_N"⟩] }

def modificationSignature (t : Target) : Except Fault Signature := do
  let input ← t.inputType
  let output ← t.outputType
  return {
    mark := t.mark
    name := "get_rxn_pres_mod"
    params := [⟨t.scalarType, "T"⟩, ⟨t.referenceType, "pres"⟩, ⟨input, "C"⟩, ⟨output, "pres_mod"⟩] }

def ratesHeader (t : Target) (reactions : List (Reaction Nat α)) : Except Fault (SourceFile α) := do
  let suffix ← t.language.headerSuffix
  let modification ← modificationSignature t
  return {
    path := t.fileStart ++ "rates" ++ suffix
    language := t.language
    parts := [
      .text ("#ifndef RATES_HEAD\n#define RATES_HEAD\n\n#include \"header" ++ suffix ++ "\"\n\n"),
      .text (if t.onDevice then "#include \"gpu_memory.cuh\"\n" else ""),
      .text t.realIncludes,
      .prototype (← rateSignature t reactions "" true),
      .prototype (← speciesRateSignature t)]
      ++ (if reactions.any (·.isModified) then [.prototype modification] else [])
      ++ [.text "\n#endif\n"] }

def rateIncludes (t : Target) (calls : Bool) : Except Fault String := do
  let suffix ← t.language.headerSuffix
  return (if calls then "#include \"rates/rates_include" ++ suffix ++ "\"\n" else "")
    ++ "#include \"" ++ t.fileStart ++ "rates" ++ suffix ++ "\"\n" ++ t.realIncludes

def batchRateItems (species : List (Species α)) (reactions : List (Reaction Nat α))
    (labels : List Int) (batch : Batch) : Except Fault (List (Item α)) := do
  let items ← (batch.members reactions).mapM fun (r, i) => do
    reactionRateItems species reactions (← entryAt labels i) r i
  return items.flatten

def wholeRateFile (t : Target) (species : List (Species α)) (reactions : List (Reaction Nat α))
    (labels : List Int) : Except Fault (SourceFile α) := do
  let items ← batchRateItems species reactions labels ⟨0, reactions.length, reactions.length⟩
  let (_, items) ← placeWith t.freshBank items
  return {
    path := t.fileStart ++ "rxn_rates" ++ t.language.sourceSuffix
    language := t.language
    parts := [
      .text (if t.freshBank.isSome then Accelerator.Bank.declaration 2 else ""),
      .text (← rateIncludes t false),
      .function (← rateSignature t reactions "" true)
        ((rateIntro t (reactions.any (·.reversible)) reactions).map .step ++ items)
        "\x7d // end eval_rxn_rates\n\n"] }

def rateBatchFile (t : Target) (species : List (Species α)) (reactions : List (Reaction Nat α))
    (labels : List Int) (batch : Batch) (k : Nat) : Except Fault (SourceFile α) := do
  let items ← batchRateItems species reactions labels batch
  let (_, items) ← placeWith t.freshBank items
  let declared := (reactions.take batch.declared).drop (batch.start + 1)
  return {
    path := "rates/rxn_rates_" ++ toString k ++ t.language.sourceSuffix
    language := t.language
    parts := [
      .text (← rateIncludes t false),
      .function (← rateSignature t reactions ("_" ++ toString k) true)
        ((rateIntro t (reactions.any (·.reversible)) declared).map .step ++ items)
        "\x7d\n\n"] }

def rateBatchHeader (t : Target) (reactions : List (Reaction Nat α)) (k : Nat) :
    Except Fault (SourceFile α) := do
  let suffix ← t.language.headerSuffix
  let n := toString k
  return {
    path := "rates/rxn_rates_" ++ n ++ suffix
    language := t.language
    parts := [
      .text ("#ifndef RATES_HEAD_" ++ n ++ "\n#define RATES_HEAD_" ++ n ++ "\n\n#include \"header"
        ++ suffix ++ "\"\n\n"),
      .prototype (← rateSignature t reactions ("_" ++ n) false),
      .text "#endif\n"] }

def callingRateFile (t : Target) (reactions : List (Reaction Nat α)) (count : Nat) :
    Except Fault (SourceFile α) := do
  let calls := (List.range count).map fun k =>
    Item.step (.call 2 ("eval_rxn_rates_" ++ toString k) false
      ([.T, .pres, .var "C", .var "fwd_rxn_rates", .var "rev_rxn_rates"]
        ++ (if passesPartialSums t reactions then [.var "dot_prod"] else [])))
  return {
    path := t.fileStart ++ "rxn_rates" ++ t.language.sourceSuffix
    language := t.language
    parts := [
      .text (← rateIncludes t true),
      .function (← rateSignature t reactions "" true) calls "\x7d // end eval_rxn_rates\n\n"] }

def rateIncludeFile (t : Target) (count : Nat) : Except Fault (SourceFile α) := do
  let suffix ← t.language.headerSuffix
  let guard := "RATES_INCLUDE_" ++ t.language.name
  let lines := (List.range count).map fun k =>
    "#include \"rxn_rates_" ++ toString k ++ suffix ++ "\"\n"
  return {
    path := "rates/rates_include" ++ suffix
    language := t.language
    parts := [.text ("#ifndef " ++ guard ++ "\n#define " ++ guard ++ "\n" ++ String.join lines
      ++ "\n#endif\n")] }

def rateListFile (t : Target) (count : Nat) : SourceFile α where
  path := "rates/rate_list_" ++ t.language.name
  language := t.language
  parts := [.text (String.intercalate " " ((List.range count).map fun k =>
    "rxn_rates_" ++ toString k ++ t.language.sourceSuffix))]

/-- Header and source files of the reaction rates. Batches are used on the accelerator when there
are more reactions than one batch holds. -/
def reactionRateFiles (t : Target) (batchLength : Int) (species : List (Species α))
    (reactions : List (Reaction Nat α)) (labels : List Int) :
    Except Fault (List (SourceFile α)) := do
  let header ← ratesHeader t reactions
  if t.onDevice && decide (batchLength < (reactions.length : Int)) then
    let all := batches batchLength reactions.length
    let files ← all.zipIdx.mapM fun (batch, k) =>
      rateBatchFile t species reactions labels batch k
    let headers ← (List.range all.length).mapM (rateBatchHeader t reactions)
    return [header, ← callingRateFile t reactions all.length] ++ files ++ headers
      ++ [← rateIncludeFile t all.length, rateListFile t all.length]
  else return [header, ← wholeRateFile t species reactions labels]

end Kinetics.Emit
