import Kinetics.Emit.ReactionRates
/-!
# The file of net production rates

Reaction by reaction, each rate of progress is added to the production rates of the species that
change in it. With shared memory, a production rate is summed up in a slot while it is held and
written back when the slot is given up.
-/

namespace Kinetics.Emit

open Code Rate Accelerator

variable {α : Type} [Arithmetic α]

def productionCell (n : Nat) (s : Nat) : Expr α :=
  if s + 1 = n then .pointee "dy_N" true else .cell "sp_rates" s

def productionLocation (n : Nat) (s : Nat) : Location :=
  if s + 1 = n then { array := "(*dy_N)", index := none } else { array := "sp_rates", index := some s }

def netRateFactors (reactions : List (Reaction Nat α)) (r : Reaction Nat α) (i : Nat) :
    List (Expr α) :=
  let forward := .cell "fwd_rates" i
  let net :=
    if r.reversible then .group (forward - .cell "rev_rates" (reverseRank reactions i)) else forward
  net :: (if r.isModified then
    [.cell "pres_mod" ((reactions.take i).countP (·.isModified))] else [])

def signedProduct (negative : Bool) : List (Expr α) → Expr α
  | [] => .hole
  | e :: es => es.foldl (· * ·) (if negative then -e else e)

def contribution (reactions : List (Reaction Nat α)) (r : Reaction Nat α) (i : Nat) (nu : α) :
    List (Expr α) :=
  let size := Arithmetic.abs nu
  let rates := netRateFactors reactions r i
  if Arithmetic.eq size Arithmetic.unit then rates
  else .plain (if Arithmetic.isWhole size then Arithmetic.pointed size else size) :: rates

/-- A contribution is assigned at first and added to or taken from the sum later. -/
def contributionStep (target : Expr α) (first : Bool) (nu : α) (factors : List (Expr α)) : Step α :=
  let negative := Arithmetic.isNegative nu
  if first then .assign 2 target .set (signedProduct negative factors)
  else .assign 2 target (if negative then .subtract else .add) (signedProduct false factors)

/-- The species that change in a reaction, with their net coefficients, in ascending order. -/
def changingSpecies (r : Reaction Nat α) : Except Fault (List (Nat × α)) :=
  (participants r).filterMapM fun s => do
    let nu ← r.net s
    return if Arithmetic.isZero nu then none else some (s, nu)

def speciesRemark (labels : List Int) (s : Nat) : Except Fault (Step α) := do
  return .remark ("sp " ++ toString (← entryAt labels s))

structure Production where
  bank : Option Bank
  /-- Species whose place outside shared memory has been assigned. -/
  assigned : List Bool
  seen : List Bool
  deriving Inhabited

def writeBack (n : Nat) (assigned : List Bool) : List Holding → List Bool × List (Step α)
  | [] => (assigned, [])
  | h :: hs =>
    let s := match h.location.index with
      | none => n - 1
      | some i => i.toNat
    let form := if assigned.getD s false then Form.add else Form.set
    let target : Expr α := match h.location.index with
      | none => .var h.location.array
      | some i => .cell h.location.array i
    let (assigned, rest) := writeBack n (assigned.set s true) hs
    (assigned, .assign 2 target form (.slot h.slot.address) :: rest)

/-- The number of reactions directly after position `i` in which a species changes. -/
def changeRun (reactions : List (Reaction Nat α)) (i s : Nat) : Except Fault Nat :=
  let rec count : List (Reaction Nat α) → Except Fault Nat
    | [] => .ok 0
    | r :: rs => do
      if Arithmetic.isZero (← r.net s) then return 0 else return (← count rs) + 1
  count (reactions.drop (i + 1))

/-- Brings the sums of the changing species into shared memory. Estimated uses are counted for all
participants and matched by rank. -/
def loadSums (n : Nat) (reactions : List (Reaction Nat α)) (r : Reaction Nat α) (i : Nat)
    (changing : List Nat) (b : Bank) : Except Fault Bank.Loaded := do
  let uses ← (participants r).mapM (changeRun reactions i)
  b.load ((changing.map (productionLocation n)).zip (uses.map fun (u : Nat) => (Arithmetic.ofInt u : α)))

/-- The statements for one changing species. `fresh` lists the slots that hold no sum yet. -/
def speciesSteps (species : List (Species α)) (speciesLabels : List Int)
    (reactions : List (Reaction Nat α)) (r : Reaction Nat α) (i : Nat)
    (state : Production × List Nat) (entry : Nat × α) :
    Except Fault ((Production × List Nat) × List (Step α)) := do
  let (p, fresh) := state
  let (s, nu) := entry
  let _ ← entryAt species s
  let remark ← speciesRemark speciesLabels s
  let n := species.length
  let factors := contribution reactions r i nu
  let seen := p.seen.set s true
  match p.bank.bind (·.find? (productionLocation n s)) with
  | some h =>
    let step := contributionStep (.slot h.slot.address) (fresh.contains h.slot.number) nu factors
    let bank := p.bank.map (·.use (productionLocation n s))
    return (({ p with bank, seen }, fresh.filter (· != h.slot.number)), [remark, step])
  | none =>
    let step := contributionStep (productionCell n s) (!p.assigned.getD s false) nu factors
    return (({ p with assigned := p.assigned.set s true, seen }, fresh), [remark, step])

def speciesRun (species : List (Species α)) (speciesLabels : List Int)
    (reactions : List (Reaction Nat α)) (r : Reaction Nat α) (i : Nat)
    (state : Production × List Nat) : List (Nat × α) → Except Fault (Production × List (Step α))
  | [] => .ok (state.1, [])
  | entry :: rest => do
    let (state, first) ← speciesSteps species speciesLabels reactions r i state entry
    let (p, more) ← speciesRun species speciesLabels reactions r i state rest
    return (p, first ++ more)

/-- Brings the sums of the changing species into shared memory, if there is any. What is evicted
is written back. The numbers are those of slots that hold no sum yet. -/
def bringIn (n : Nat) (reactions : List (Reaction Nat α)) (r : Reaction Nat α) (i : Nat)
    (changing : List Nat) (p : Production) : Except Fault ((Production × List Nat) × List (Step α)) :=
  match p.bank with
  | none => .ok ((p, []), [])
  | some b => do
    let loaded ← loadSums n reactions r i changing b
    let (assigned, backs) := writeBack n p.assigned loaded.evicted
    let fresh := (loaded.fresh.filter (·.2)).map (·.1.slot.number)
    return (({ p with bank := some loaded.bank, assigned }, fresh), backs)

def productionSteps (species : List (Species α)) (speciesLabels reactionLabels : List Int)
    (reactions : List (Reaction Nat α)) (p : Production) (r : Reaction Nat α) (i : Nat) :
    Except Fault (Production × List (Step α)) := do
  let label ← entryAt reactionLabels i
  let changing ← changingSpecies r
  let (state, backs) ← bringIn species.length reactions r i (changing.map (·.1)) p
  let (p, steps) ← speciesRun species speciesLabels reactions r i state changing
  return (p, .remark ("rxn " ++ toString label) :: backs ++ steps ++ [.blank])

def productionRun (species : List (Species α)) (speciesLabels reactionLabels : List Int)
    (reactions : List (Reaction Nat α)) (p : Production) :
    List (Reaction Nat α × Nat) → Except Fault (Production × List (Step α))
  | [] => .ok (p, [])
  | (r, i) :: rest => do
    let (p, first) ← productionSteps species speciesLabels reactionLabels reactions p r i
    let (p, more) ← productionRun species speciesLabels reactionLabels reactions p rest
    return (p, first ++ more)

def finalBacks (n : Nat) (p : Production) : Except Fault (List (Step α)) :=
  match p.bank with
  | none => .ok []
  | some b => do
    let (_, evicted) ← b.evictAll
    return (writeBack n p.assigned evicted).2

def zeroStep (n : Nat) (speciesLabels : List Int) (s : Nat) : Except Fault (List (Step α)) := do
  return [← speciesRemark speciesLabels s, .set (productionCell n s) 0.0]

def zeroSteps (n : Nat) (speciesLabels : List Int) (seen : List Bool) :
    Except Fault (List (Step α)) := do
  let idle := (seen.zipIdx.filter fun (s, _) => !s).map (·.2)
  return (← idle.mapM (zeroStep n speciesLabels)).flatten

def productionBody (t : Target) (species : List (Species α)) (reactions : List (Reaction Nat α))
    (speciesLabels reactionLabels : List Int) : Except Fault (List (Step α) × List Bool) := do
  let n := species.length
  let start : Production := {
    bank := t.freshBank.map fun b => { b with watched := true }
    assigned := List.replicate n false
    seen := List.replicate n false }
  let (p, steps) ← productionRun species speciesLabels reactionLabels reactions start reactions.zipIdx
  let zeros ← zeroSteps n speciesLabels p.seen
  let backs ← finalBacks n p
  let declaration := if t.freshBank.isSome then [.line (Bank.declaration 2)] else []
  return (declaration ++ steps ++ zeros ++ backs, p.seen)

def productionPart (t : Target) (species : List (Species α)) (reactions : List (Reaction Nat α))
    (body : List (Item α)) : Except Fault (FilePart α) :=
  let n := toString species.length
  let count := toString reactions.length
  match t.language with
  | .c | .cuda => do
    return .function (← speciesRateSignature t) body "\x7d // end eval_spec_rates\n\n"
  | .fortran => .ok (.routine
      ("subroutine eval_spec_rates (fwd_rates, rev_rates, pres_mod, sp_rates, dy_N)\n\n"
        ++ "  implicit none\n  double precision, intent(in) :: fwd_rates(" ++ count
        ++ "), rev_rates(" ++ count ++ "), pres_mod("
        ++ toString (reactions.countP (·.isModified)) ++ ")\n"
        ++ "  double precision, intent(out) :: sp_rates(" ++ n ++ "), dy_N\n\n")
      body "end subroutine eval_spec_rates\n\n")
  | .matlab => .ok (.routine
      ("function sp_rates = eval_spec_rates (fwd_rates, rev_rates, pres_mod, dy_N)\n\n"
        ++ "  sp_rates = zeros(" ++ n ++ ",1);\n")
      body "end\n\n")

def speciesRateFile (t : Target) (species : List (Species α)) (reactions : List (Reaction Nat α))
    (speciesLabels reactionLabels : List Int) : Except Fault (SourceFile α × List Bool) := do
  let (body, seen) ← productionBody t species reactions speciesLabels reactionLabels
  let includes ←
    if t.language.isBraced then do
      let suffix ← t.language.headerSuffix
      pure ("#include \"header" ++ suffix ++ "\"\n" ++ t.realIncludes ++ "#include \"" ++ t.fileStart
        ++ "rates" ++ suffix ++ "\"\n\n")
    else pure ""
  let part ← productionPart t species reactions (body.map .step)
  return ({
    path := t.fileStart ++ "spec_rates" ++ t.language.sourceSuffix
    language := t.language
    parts := [.text includes, part] }, seen)

end Kinetics.Emit
