import Kinetics.Arithmetic
/-!
# Compositions

The composition of a gas is its enthalpy per mass and the mass fractions of its species.
Compositions are added, subtracted and scaled entry by entry.
-/

namespace Kinetics.Reactor

variable {α : Type}

structure Composition (α : Type) where
  enthalpy : α
  fractions : List α
  deriving Repr, DecidableEq, Inhabited

/-- Combines two lists entry by entry. A list of one entry stands for as many as needed. -/
def spread (f : α → α → α) (xs ys : List α) : Except Fault (List α) :=
  if xs.length = ys.length then .ok (List.zipWith f xs ys)
  else match xs, ys with
    | [x], ys => .ok (ys.map (f x))
    | xs, [y] => .ok (xs.map (f · y))
    | _, _ => .error .sizeMismatch

namespace Composition

def toList (c : Composition α) : List α := c.enthalpy :: c.fractions

def ofList : List α → Except Fault (Composition α)
  | [] => .error .missingEntry
  | h :: y => .ok ⟨h, y⟩

def map (f : α → α) (c : Composition α) : Composition α := ⟨f c.enthalpy, c.fractions.map f⟩

def combine (f : α → α → α) (c d : Composition α) : Except Fault (Composition α) := do
  return ⟨f c.enthalpy d.enthalpy, ← spread f c.fractions d.fractions⟩

end Composition

/-! ## Operations -/

inductive Operand (α : Type) where
  | composition (c : Composition α)
  | values (xs : List α)
  | number (x : α)
  | other
  deriving Repr, Inhabited

inductive Operation where
  | add
  | subtract
  | subtractFrom
  | scale
  deriving Repr, DecidableEq, Inhabited

def Operand.composition? : Operand α → Option (Except Fault (Composition α))
  | .composition c => some (.ok c)
  | .values xs => some (Composition.ofList xs)
  | _ => none

variable [Arithmetic α]

def Operation.apply : Operation → α → α → α
  | .add, x, y => x + y
  | .subtract, x, y => x - y
  | .subtractFrom, x, y => y - x
  | .scale, x, y => x * y

def Operation.run (o : Operation) (c : Composition α) (d : Operand α) :
    Except Fault (Option (Composition α)) :=
  match d with
  | .number x => .ok (some (c.map (o.apply · x)))
  | d =>
    match o, d.composition? with
    | .scale, _ | _, none => .ok none
    | o, some d => do return some (← c.combine o.apply (← d))

end Kinetics.Reactor
