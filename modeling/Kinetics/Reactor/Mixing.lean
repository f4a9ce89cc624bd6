import Kinetics.Random.Source
import Kinetics.Reactor.Composition
/-!
# Mixing

The particles of a reactor form pairs of neighbours. Mixing moves the compositions of a pair
towards each other; pairing exchanges randomly selected pairs with those at the end. What has been
done remains if a step fails.
-/

namespace Kinetics.Reactor

open Random

def pairs {β : Type} : List β → List (β × β)
  | a :: b :: rest => (a, b) :: pairs rest
  | _ => []

structure Ensemble (α : Type) where
  compositions : List (Composition α)
  random : Nat := 0
  deriving Repr, Inhabited

abbrev Stirring (α β : Type) := ExceptT Fault (StateM (Ensemble α)) β

/-! ## Mixing -/

section
variable {α : Type} [Arithmetic α]

def mixingShare (step time : α) : Except Fault α := do
  let exponent ← Arithmetic.div (-(Arithmetic.tenths 20) * step) time
  return Arithmetic.tenths 5 * (Arithmetic.unit - Arithmetic.exp exponent)

def mixPair (share : α) (a b : Composition α) : Except Fault (Composition α × Composition α) := do
  let moved := (← a.combine (· - ·) b).map (· * share)
  return (← a.combine (· - ·) moved, ← b.combine (· + ·) moved)

def mixPairs (share : α) : List (Composition α) → List (Composition α) × Except Fault Unit
  | a :: b :: rest =>
    match mixPair share a b with
    | .error e => (a :: b :: rest, .error e)
    | .ok (a, b) =>
      let (rest, result) := mixPairs share rest
      (a :: b :: rest, result)
  | rest => (rest, .ok ())

def mix (step time : α) : Stirring α Unit := do
  let share ← mixingShare step time
  let (compositions, result) := mixPairs share (← get).compositions
  modify fun e => { e with compositions }
  (result : Except Fault Unit)

end

/-! ## Pairing -/

section
variable {α : Type}

/-- The position in a list of `n` entries; negative positions count from the end. -/
def position (n : Nat) (k : Int) : Except Fault Nat :=
  let k := if k < 0 then k + n else k
  if 0 ≤ k ∧ k < n then .ok k.toNat else .error .missingEntry

def swap (i j : Int) : Stirring α Unit := do
  let xs := (← get).compositions
  let i ← position xs.length i
  let j ← position xs.length j
  modify fun e => { e with compositions := exchange xs i j }

def draw (src : Source) : Stirring α Nat := do
  let s := src.step (← get).random
  modify fun e => { e with random := s }
  return src.value s

def halfRange : Nat := 4194304

/-- Selects one of the first `n` pairs, possibly exchanges its two particles, and exchanges it with
the pair that starts at `last`. -/
def selectPair (src : Source) (n last : Int) : Stirring α Unit := do
  if n ≤ 0 then throw .unacceptable
  let i : Int := 2 * ((← draw src : Nat) % n)
  if halfRange < (← draw src) then swap i (i + 1)
  swap i last
  swap (i + 1) (last + 1)

/-- Moves `count` randomly selected pairs to the end, before the last `skipped` pairs. -/
def selectPairs (src : Source) (count : Nat) (skipped : Int) : Stirring α Unit := do
  let half := (← get).compositions.length / 2
  (List.range count).forM fun (k : Nat) =>
    selectPair src ((half : Int) - k - skipped) (-2 * (k + skipped + 1))

end

end Kinetics.Reactor
