import Kinetics.Emit.ReactionRates
import Kinetics.Rate.Falloff
/-!
# The file of pressure modifications

One factor for every reaction with a third body or with falloff, by which its rate of progress is
multiplied.
-/

namespace Kinetics.Emit

open Code Rate

variable {α : Type} [Arithmetic α]

/-- Whether a reaction is treated as a falloff reaction when variables are declared. -/
def declaresFalloff (r : Reaction Nat α) : Bool := r.falloff && !r.thirdBody

def declareReals (t : Target) (names : List String) : List (Step α) :=
  match t.language with
  | .c | .cuda => names.map fun n => t.localReal n none
  | .fortran => [.declare 2 "double precision ::" names none none .native]
  | .matlab => []

def declareGroup (t : Target) (title : String) (names : List String) : List (Step α) :=
  if t.language == .matlab then []
  else .remark title :: (declareReals t names ++ [.blank])

def modificationDeclarations (t : Target) (reactions : List (Reaction Nat α)) : List (Step α) :=
  let falloff := reactions.filter declaresFalloff
  let thirdBody := match t.language with
    | .c | .cuda => declareGroup t " third body variable declaration" ["thd"]
    | .fortran => .remark " third body variable declaration" :: declareReals t ["thd"]
    | .matlab => []
  (if reactions.any (·.isModified) then thirdBody else [])
    ++ (if falloff.isEmpty then [] else
      declareGroup t " pressure dependence variable declarations" ["k0", "kinf", "Pr"]
      ++ (if falloff.any (·.troe) then
          declareGroup t " troe variable declarations" ["logFcent", "A", "B"] else [])
      ++ (if falloff.any (·.sri) then declareGroup t " sri variable declarations" ["X"] else []))

def modificationStart (t : Target) : List (Step α) :=
  let total : Expr α := .pres / .group (.sci 8 gasConstant * .T)
  if t.language.isBraced then [t.localReal "logT" (some (.log .T)), t.localReal "m" (some total), .blank]
  else [.setVar "logT" (.log .T), .setVar "m" total, .blank]

/-- Concentrations of third bodies that a reaction wants in shared memory, without expected
uses. -/
def modificationLoads (r : Reaction Nat α) : List (Item α) :=
  if r.efficiencies.isEmpty then []
  else
    let indexes := (r.efficiencies.filter fun e => !Arithmetic.eq e.2 Arithmetic.unit).map (·.1)
    [.load ((indexes.mergeSort (· ≤ ·)).map fun (s : Nat) =>
      (("C", some (s : Int)), Arithmetic.zero))]

def modificationItems (l : Language) (label : Int) (r : Reaction Nat α) (k : Nat) :
    Except Fault (List (Item α)) := do
  let target : Expr α := .cell "pres_mod" k
  let thirdBody := if r.thirdBody then [Step.set target (thirdBodySum "C" r.efficiencies)] else []
  let falloff ← if r.falloff then falloffSteps "C" target r else pure []
  return .step (.comment 2 .native (" reaction " ++ l.indexText label) true) :: modificationLoads r
    ++ (thirdBody ++ falloff ++ [Step.blank]).map .step

def allModificationItems (l : Language) (reactions : List (Reaction Nat α)) (labels : List Int) :
    Except Fault (List (Item α)) := do
  let modified := reactions.zipIdx.filter (·.1.isModified)
  let items ← modified.zipIdx.mapM fun ((r, i), k) => do
    modificationItems l (← entryAt labels i) r k
  return items.flatten

def modificationIncludes (t : Target) : Except Fault String := do
  if t.language.isBraced then
    let suffix ← t.language.headerSuffix
    return "#include <math.h>\n#include \"header" ++ suffix ++ "\"\n#include \"" ++ t.fileStart
      ++ "rates" ++ suffix ++ "\"\n"
      ++ (if t.differentiable then
        t.realIncludes ++ "#define fmax(a, b) (a.value() > b ? a : adouble(b))\n" else "")
      ++ "\n"
  else return ""

def modificationPart (t : Target) (speciesCount modifiedCount : Nat) (body : List (Item α)) :
    Except Fault (FilePart α) :=
  match t.language with
  | .c | .cuda => do
    return .function (← modificationSignature t) body "\x7d // end get_rxn_pres_mod\n\n"
  | .fortran => .ok (.routine
      ("subroutine get_rxn_pres_mod ( T, pres, C, pres_mod )\n\n  implicit none\n"
        ++ "  double precision, intent(in) :: T, pres, C(" ++ toString speciesCount ++ ")\n"
        ++ "  double precision, intent(out) :: pres_mod(" ++ toString modifiedCount ++ ")\n"
        ++ "  \n  double precision :: logT, m\n")
      body "end subroutine get_rxn_pres_mod\n\n")
  | .matlab => .ok (.routine
      ("function pres_mod = get_rxn_pres_mod (T, pres, C)\n\n  pres_mod = zeros("
        ++ toString modifiedCount ++ ",1);\n")
      body "end\n\n")

def modificationFile (t : Target) (species : List (Species α)) (reactions : List (Reaction Nat α))
    (labels : List Int) : Except Fault (SourceFile α) := do
  let items ← allModificationItems t.language reactions labels
  let (_, items) ← placeWith t.freshBank items
  let declaration := if t.freshBank.isSome then [.line (Accelerator.Bank.declaration 2)] else []
  let start := declaration ++ modificationDeclarations t reactions ++ modificationStart t
  let part ← modificationPart t species.length (reactions.countP (·.isModified))
    (start.map .step ++ items)
  return {
    path := t.fileStart ++ "rxn_rates_pres_mod" ++ t.language.sourceSuffix
    language := t.language
    parts := [.text (← modificationIncludes t), part] }

end Kinetics.Emit
