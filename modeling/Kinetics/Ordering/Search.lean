import Kinetics.Ordering.Affinity
import Kinetics.Random.Source
/-!
# Searching for an order

A greedy search moves the item that fits worst to the place where it fits best, until a number of
moves in a row brings no better score. After that a random move starts the next round. Items that
use nothing are put at the end first and take no part.
-/

namespace Kinetics.Ordering

open Random

def move {β : Type} (xs : List β) (source target : Nat) : List β :=
  match xs[source]? with
  | some x => (xs.eraseIdx source).insertIdx target x
  | none => xs

variable {α : Type} [Arithmetic α]

def leastPositions (xs : List α) : List Nat :=
  (xs.zipIdx.foldl (fun (found : Option (α × List Nat)) (x, i) =>
    match found with
    | none => some (x, [i])
    | some (least, is) =>
      if Arithmetic.lt x least then some (x, [i])
      else if Arithmetic.eq x least then some (least, is ++ [i])
      else found) none).elim [] (·.2)

def greatest {β : Type} (xs : List (α × β)) : Option (α × β) :=
  xs.foldl (fun (found : Option (α × β)) entry =>
    match found with
    | none => some entry
    | some (most, _) => if Arithmetic.lt most entry.1 then some entry else found) none

def bestPlace (laid : List Row) (reach count item : Nat) : Except Fault (Option (α × Nat)) := do
  let places ← ((List.range count).filter (· != item)).mapM fun i => do
    return (← fit laid reach count (laid.getD item []) i, i)
  return greatest places

/-- The move of the next step: of the items that fit worst, the one that would fit best elsewhere.
There is none with fewer than two items. -/
def nextMove (laid : List Row) (reach count : Nat) : Except Fault (Nat × Nat) := do
  let worst := leastPositions (← ownFits (α := α) laid reach count)
  let moves ← worst.mapM fun item => do
    match ← bestPlace (α := α) laid reach count item with
    | some (x, place) => return (x, item, place)
    | none => throw .wrongKind
  match greatest moves with
  | some (_, item, place) => return (item, place)
  | none => throw .wrongKind

/-- What is searched through: the rows, how far neighbours count, and how many items take part. -/
structure Terrain where
  rows : List Row
  reach : Nat
  count : Nat

def Terrain.score (t : Terrain) (order : List Nat) : Except Fault α := do
  Ordering.score (← rowsOf t.rows order) t.reach t.count

/-- The state of a search: the current order, the score that the next one has to beat, and the
best score and order so far. -/
structure Search (α : Type) where
  order : List Nat
  toBeat : α
  best : α
  bestOrder : List Nat

def Search.step (t : Terrain) (s : Search α) : Except Fault (Search α × Bool) := do
  let laid ← rowsOf t.rows s.order
  let (item, place) ← nextMove (α := α) laid t.reach t.count
  let order := move s.order item place
  let score : α ← t.score order
  let better := !Arithmetic.le score s.toBeat
  let record := Arithmetic.lt s.best score
  return ({
    order
    toBeat := if better then score else s.toBeat
    best := if record then score else s.best
    bestOrder := if record then order else s.bestOrder }, better)

/-- Steps until `patience` of them in a row brought nothing; `stale` did so already. -/
def Search.climb (t : Terrain) (patience : Nat) :
    (fuel stale : Nat) → Search α → Except Fault (Search α)
  | 0, _, s => .ok s
  | fuel + 1, stale, s =>
    if patience ≤ stale then .ok s
    else do
      let (s, better) ← s.step t
      s.climb t patience fuel (if better then 0 else stale + 1)

def orderCount (n : Nat) : Nat := (List.range n).foldl (fun c i => c * (i + 1)) 1

/-- Climbs until nothing is gained any more. A score is beaten at most once for each order. -/
def Search.exhaust (t : Terrain) (patience : Nat) (s : Search α) : Except Fault (Search α) :=
  s.climb t patience ((orderCount s.order.length + 1) * patience + 1) 0

def Search.jump (src : Source) (s : Search α) : Chance (Search α) := do
  let n := s.order.length
  let item ← src.below n
  let place ← src.belowExcept n item
  return { s with order := move s.order item place }

def Search.rounds (src : Source) (t : Terrain) (patience : Nat) :
    (count : Nat) → Search α → Chance (Search α)
  | 0, s => return s
  | count + 1, s => do
    let s ← (s.exhaust t patience : Except Fault _)
    let s ← s.jump src
    s.rounds src t patience count

def isUsed (rows : List Row) (i : Nat) : Bool := (rows.getD i []).uses != 0

def usedFirst (rows : List Row) (order : List Nat) : List Nat :=
  order.filter (isUsed rows) ++ order.filter (!isUsed rows ·)

def search (src : Source) (rows : List Row) (start : List Nat) (reach patience rounds : Nat) :
    Chance (α × List Nat) := do
  let _ ← (rowsOf rows start : Except Fault _)
  let order := usedFirst rows start
  let t : Terrain := { rows, reach, count := order.countP (isUsed rows) }
  let first : α ← (t.score order : Except Fault α)
  let s ← Search.rounds src t patience rounds
    { order, toBeat := first, best := first, bestOrder := order }
  return (s.best, s.bestOrder)

end Kinetics.Ordering
