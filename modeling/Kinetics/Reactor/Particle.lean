import Kinetics.Reactor.Mixing
/-!
# Particles

The particles of a reactor have a composition each, and a temperature and a pressure that stay as
they are. A move works on one particle or on all of them.
-/

namespace Kinetics.Reactor

structure Condition (α : Type) where
  temperature : α
  pressure : α
  deriving Repr, Inhabited

inductive Partner (α : Type) where
  | particle (i : Nat)
  | operand (x : Operand α)
  deriving Repr, Inhabited

inductive Move (α : Type) where
  | tell (i : Nat)
  | assign (i : Nat) (p : Partner α)
  /-- Combines a particle with something and tells the result, or keeps it. -/
  | combine (o : Operation) (keep : Bool) (i : Nat) (p : Partner α)
  | mix (step time : α)
  | select (count : Nat) (skipped : Int)
  | record (time : α)
  deriving Repr, Inhabited

inductive Reply (α : Type) where
  | nothing
  | composition (c : Composition α)
  | changed
  | refused
  | rows (xs : List (List α))
  deriving Repr, Inhabited

section
variable {α : Type}

def compositionAt (i : Nat) : Stirring α (Composition α) := do
  match (← get).compositions[i]? with
  | some c => return c
  | none => throw .missingEntry

def setComposition (i : Nat) (c : Composition α) : Stirring α Unit :=
  modify fun e => { e with compositions := e.compositions.set i c }

def Partner.resolve : Partner α → Stirring α (Operand α)
  | .particle i => return .composition (← compositionAt i)
  | .operand x => return x

end

section
variable {α : Type} [Arithmetic α]

/-- What is recorded of a particle: time, temperature, pressure and as many mass fractions as the
table has columns for. Negative mass fractions are recorded as zero. -/
def recordRow (columns : Nat) (time : α) (s : Condition α) (c : Composition α) :
    Except Fault (List α) := do
  let ys := c.fractions.map fun y =>
    if Arithmetic.lt y (Arithmetic.tenths 0) then Arithmetic.tenths 0 else y
  let row ← if ys.length = columns then pure ys
    else match ys with
      | [y] => pure (List.replicate columns y)
      | _ => throw .sizeMismatch
  return ([time, s.temperature, s.pressure] ++ row).map Arithmetic.pointed

def Move.run (src : Random.Source) (conditions : List (Condition α)) :
    Move α → Stirring α (Reply α)
  | .tell i => return .composition (← compositionAt i)
  | .assign i p => do
    match (← p.resolve).composition? with
    | none => return .refused
    | some c =>
      setComposition i (← c)
      return .nothing
  | .combine o keep i p => do
    match ← o.run (← compositionAt i) (← p.resolve) with
    | none => return .refused
    | some c =>
      if !keep then return .composition c
      setComposition i c
      return .changed
  | .mix step time => do
    Reactor.mix step time
    return .nothing
  | .select count skipped => do
    selectPairs src count skipped
    return .nothing
  | .record time => do
    let cs := (← get).compositions
    let columns := (cs.head?.map (·.fractions.length)).getD 0
    let rows ← ((conditions.zip cs).mapM fun (s, c) => recordRow columns time s c : Except Fault _)
    return .rows rows

/-- Carries out moves up to the first that fails, with the compositions after each. -/
def runMoves (src : Random.Source) (conditions : List (Condition α)) (e : Ensemble α) :
    List (Move α) → List (Except Fault (Reply α) × List (Composition α))
  | [] => []
  | m :: rest =>
    let (result, e) := StateT.run (ExceptT.run (m.run src conditions)) e
    (result, e.compositions) :: match result with
      | .ok _ => runMoves src conditions e rest
      | .error _ => []

end

end Kinetics.Reactor
