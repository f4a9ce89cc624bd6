import Kinetics.Accelerator.SharedMemory
import Kinetics.Code.Step
/-!
# Placing locations in shared memory

Statements are first built with plain locations. `placeItems` then walks through them with the
state of the shared memory: it emits the loads that the items ask for, and replaces each location
by its slot while it is held.
-/

namespace Kinetics.Code

open Accelerator

variable {α : Type} [Arithmetic α]

def slotOf (b : Bank) (array : String) (index : Option Int) : Option String :=
  (b.find? { array, index }).map (·.slot.address)

def useAll (b : Bank) (cells : List (String × Option Int)) : Bank :=
  cells.foldl (fun b (array, index) => b.use { array, index }) b

def loadStep (h : Holding) : Step α :=
  .assign 2 (.slot h.slot.address) .set (.element h.location.array h.location.index)

def placeItem (b : Bank) : Item α → Except Fault (Bank × List (Item α))
  | .step s => .ok (useAll b s.cells, [.step (s.place (slotOf b))])
  | .split indent condition below above =>
    .ok (useAll b ((below ++ above).flatMap Step.cells),
      [.split indent condition (below.map (·.place (slotOf b))) (above.map (·.place (slotOf b)))])
  | .choice indent arms closed =>
    .ok (useAll b (arms.flatMap fun arm => arm.2.flatMap Step.cells),
      [.choice indent (arms.map fun (c, steps) => (c, steps.map (·.place (slotOf b)))) closed])
  | .load wanted => do
    let loaded ← b.load (wanted.map fun ((array, index), uses) => ({ array, index }, uses))
    let new := loaded.fresh.filterMap fun (h, isNew) => if isNew then some (.step (loadStep h)) else none
    return (loaded.bank, new)
  | .release locations => .ok (b.mark (locations.map fun (array, index) => { array, index }), [])
  | .consult locations => .ok (useAll b locations, [])

def placeItems (b : Bank) : List (Item α) → Except Fault (Bank × List (Item α))
  | [] => .ok (b, [])
  | i :: is => do
    let (b, first) ← placeItem b i
    let (b, rest) ← placeItems b is
    return (b, first ++ rest)

def placeWith (bank : Option Bank) (items : List (Item α)) :
    Except Fault (Option Bank × List (Item α)) :=
  match bank with
  | none => .ok (none, items)
  | some b => do
    let (b, items) ← placeItems b items
    return (some b, items)

end Kinetics.Code
