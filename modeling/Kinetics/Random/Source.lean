import Kinetics.Fault
/-!
# Random numbers

A source of random numbers is a sequence of states, each of which gives a number. The state is
kept even if the computation that draws from it fails.
-/

namespace Kinetics.Random

structure Source where
  step : Nat → Nat
  value : Nat → Nat

/-- The linear congruential source with 31 bits of state, of which the upper 23 are given out. -/
def Source.congruential : Source where
  step s := (s * 1103515245 + 12345) % 2147483648
  value s := s / 256

abbrev Chance (β : Type) := ExceptT Fault (StateM Nat) β

namespace Source

variable (src : Source)

def draw : Chance Nat := do
  let s := src.step (← get)
  set s
  return src.value s

def below (n : Nat) : Chance Nat := do
  let x ← src.draw
  if n = 0 then throw .divisionByZero
  return x % n

/-- A number of the interval from `low` up to but without `high`; the remainder takes the sign of
the width. -/
def between (low high : Int) : Chance Int := do
  let x ← src.draw
  if high = low then throw .divisionByZero
  return low + Int.fmod x (high - low)

def several (low high : Int) (count : Nat) : Chance (List Int) :=
  (List.range count).mapM fun _ => src.between low high

/-- The first number below `n` other than `avoided` that comes after a state, with the state that
gives it. A source that keeps giving the avoided number has none. -/
def other (src : Source) (n avoided s : Nat) : Option (Nat × Nat) :=
  let s := src.step s
  if src.value s % n = avoided then src |>.other n avoided s else some (src.value s % n, s)
partial_fixpoint

/-- A number below `n` other than `avoided`, drawn again until it is found. -/
def belowExcept (n avoided : Nat) : Chance Nat := do
  match src.other n avoided (← get) with
  | some (x, s) =>
    set s
    return x
  | none => throw .unacceptable

end Source

def exchange {β : Type} (xs : List β) (i j : Nat) : List β :=
  match xs[i]?, xs[j]? with
  | some x, some y => (xs.set i y).set j x
  | _, _ => xs

def Source.shuffle (src : Source) {β : Type} : (i : Nat) → List β → Chance (List β)
  | 0, xs => return xs
  | i + 1, xs => do
    let j ← src.below (i + 2)
    src.shuffle i (exchange xs (i + 1) j)

def Source.permutation (src : Source) (n : Nat) : Chance (List Nat) :=
  src.shuffle (n - 1) (List.range n)

end Kinetics.Random
