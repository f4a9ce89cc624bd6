import Kinetics.Scalar
/-!
# Inflow

Several streams flow into a reactor, one particle at a time. Each stream has a running flow, which
grows by the stream's flow rate at every inflow. The stream with the largest running flow is next,
and its running flow is reduced by the sum of all flow rates.
-/

namespace Kinetics.Reactor

structure Stream (α : Type) where
  flow : α
  running : α
  deriving Repr, DecidableEq, Inhabited

inductive Stall (α : Type) where
  | negative (total : α)
  | idle
  deriving Repr, DecidableEq, Inhabited

section
variable {α : Type} [Arithmetic α]

def Stream.start (flow : α) : Stream α := ⟨flow, Arithmetic.tenths 0⟩

def largestAbove (bound : α) : Nat → List α → Option Nat
  | _, [] => none
  | i, x :: rest =>
    if Arithmetic.lt bound x then some ((largestAbove x (i + 1) rest).getD i)
    else largestAbove bound (i + 1) rest

def nextInflow (streams : List (Stream α)) : Except (Stall α) (Nat × List (Stream α)) :=
  let grown := streams.map fun s => { s with running := s.running + s.flow }
  let total := (streams.map (·.flow)).foldl (· + ·) (Arithmetic.tenths 0)
  if Arithmetic.lt total (Arithmetic.tenths 0) then .error (.negative total)
  else match largestAbove (Arithmetic.tenths 0) 0 (grown.map (·.running)) with
    | none => .error .idle
    | some i => .ok (i, grown.modify i fun s => { s with running := s.running - total })

/-- The streams selected by a number of inflows, each with the streams after it. -/
def schedule (streams : List (Stream α)) : Nat → Except (Stall α) (List (Nat × List (Stream α)))
  | 0 => .ok []
  | k + 1 => do
    let next ← nextInflow streams
    return next :: (← schedule next.2 k)

end

def Stall.fault : Stall Scalar → Fault
  | .negative total =>
    .halt ("Error: sum_flows = " ++ Number.boundedText 4 total.toFloat ++ "\n") (some 1)
  | .idle => .wrongKind

def inflows (streams : List (Stream Scalar)) (count : Nat) :
    Except Fault (List (Nat × List (Stream Scalar))) :=
  (schedule streams count).mapError Stall.fault

end Kinetics.Reactor
