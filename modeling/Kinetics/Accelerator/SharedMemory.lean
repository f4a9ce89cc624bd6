import Kinetics.Code.Language
import Kinetics.Accelerator.Resources
/-!
# Shared memory as a cache of array elements

Each thread owns a small number of slots in shared memory. A `Bank` records which location each
slot holds. Locations are loaded in the order of their estimated use; a slot is given up when it
is marked, which happens on request or when its location was not used for two loads.
-/

namespace Kinetics.Accelerator

structure Location where
  array : String
  index : Option Int
  language : Language := .cuda
  deriving Repr, DecidableEq, Inhabited

namespace Location

/-- Whether a stored location serves for a requested one. A stored whole variable serves for all
its elements. -/
def serves (stored requested : Location) : Bool :=
  stored.array == requested.array
    && (stored.index.isNone || stored.index == requested.index)

def text (l : Location) : String :=
  match l.index with
  | none => l.array
  | some i => l.language.element l.array i

end Location

/-- A slot of a thread. Before a bank is first reset its slots have no numbers of their own, and
each counts as number one. -/
inductive Slot where
  | unnumbered
  | numbered (n : Nat)
  deriving Repr, DecidableEq, Inhabited

namespace Slot

def number : Slot → Nat
  | .unnumbered => 1
  | .numbered n => n

def address : Slot → String
  | .numbered 0 => "shared_temp[threadIdx.x]"
  | .numbered n => "shared_temp[threadIdx.x + " ++ toString n ++ " * blockDim.x]"
  | .unnumbered => "shared_temp[threadIdx.x + True * blockDim.x]"

end Slot

structure Holding where
  slot : Slot
  location : Location
  idle : Nat := 0
  deriving Repr, DecidableEq, Inhabited

def Holding.wait (h : Holding) : Holding := { h with idle := h.idle + 1 }

structure Bank where
  perBlock : Int
  perThread : Int
  /-- Slots in use, in the order in which they were taken. -/
  held : List Holding := []
  free : List Slot := []
  marks : List Bool := []
  watched : Bool := false
  deriving Repr, DecidableEq, Inhabited

namespace Bank

/-- The bank of a thread, for given numbers of blocks on a multiprocessor and of threads. -/
def create (blocks threads : Int) (preferCache : Bool) : Except Fault Bank := do
  let perBlock ← sharedPerBlock blocks preferCache
  let perThread ← sharedPerThread blocks threads preferCache
  return {
    perBlock, perThread
    free := List.replicate perThread.toNat .unnumbered
    marks := List.replicate perThread.toNat false }

def reset (b : Bank) : Bank :=
  { b with
    held := []
    free := (List.range b.perThread.toNat).map Slot.numbered
    marks := List.replicate b.perThread.toNat false
    watched := false }

def holds (b : Bank) (l : Location) : Bool := b.held.any (·.location.serves l)

def find? (b : Bank) (l : Location) : Option Holding := b.held.find? (·.location.serves l)

def use (b : Bank) (l : Location) : Bank :=
  match b.find? l with
  | some h =>
    { b with held := b.held.map fun k => if k.slot.number = h.slot.number then { k with idle := 0 } else k }
  | none => b

def isFull (b : Bank) : Bool := decide (b.perThread ≤ (b.held.length : Int))

def setMark (b : Bank) (s : Slot) (mark : Bool) : Except Fault Bank :=
  if s.number < b.marks.length then .ok { b with marks := b.marks.set s.number mark }
  else .error .missingEntry

/-- Gives up the slot with a number; the eviction is reported if the bank is watched. -/
def evict (b : Bank) (key : Slot) : Except Fault (Bank × List Holding) :=
  match b.held.find? (·.slot.number == key.number) with
  | none => .error (.unknownName (toString key.number))
  | some h => do
    let b ← { b with
      held := b.held.filter (·.slot.number != key.number)
      free := b.free ++ [key] }.setMark key false
    return (b, if b.watched then [{ h with slot := key }] else [])

def marked (b : Bank) : Except Fault (List Holding) :=
  b.held.filterMapM fun h =>
    match b.marks[h.slot.number]? with
    | some true => .ok (some h)
    | some false => .ok none
    | none => .error .missingEntry

def longestIdle : List Holding → Option Holding
  | [] => none
  | h :: hs => some (hs.foldl (fun best k => if best.idle < k.idle then k else best) h)

def evictLongestIdle (b : Bank) : Except Fault (Bank × List Holding) :=
  if b.held.isEmpty then .ok (b, [])
  else do
    match longestIdle (← b.marked) with
    | some h => b.evict h.slot
    | none => .error .unacceptable

def evictNext (state : Bank × List Holding) (h : Holding) : Except Fault (Bank × List Holding) := do
  let (b, more) ← state.1.evict h.slot
  return (b, state.2 ++ more)

def evictAll (b : Bank) : Except Fault (Bank × List Holding) := b.held.foldlM evictNext (b, [])

def take (b : Bank) (l : Location) : Except Fault Bank :=
  match b.free.getLast? with
  | none => .error (.broken "")
  | some s =>
    let held :=
      if b.held.any (·.slot.number == s.number) then
        b.held.map fun h => if h.slot.number = s.number then { h with location := l, idle := 0 } else h
      else b.held ++ [{ slot := s, location := l }]
    .ok { b with held, free := b.free.dropLast }

/-- Marks a holding that was idle for two loads and is not requested; unmarks a requested one. -/
def markFor (wanted : List Location) (b : Bank) (h : Holding) : Except Fault Bank :=
  let requested := wanted.any (·.serves h.location)
  if decide (2 ≤ h.idle) && !requested then b.setMark h.slot true
  else if requested then b.setMark h.slot false
  else .ok b

def markIdle (b : Bank) (wanted : List Location) : Except Fault Bank := b.held.foldlM (markFor wanted) b

def insertByUse {α : Type} [Arithmetic α] (x : Location × α) :
    List (Location × α) → List (Location × α)
  | [] => [x]
  | y :: ys => if Arithmetic.lt y.2 x.2 then x :: y :: ys else y :: insertByUse x ys

def sortByUse {α : Type} [Arithmetic α] (xs : List (Location × α)) : List (Location × α) :=
  xs.foldl (fun sorted x => insertByUse x sorted) []

def makeRoom (b : Bank) : Except Fault (Bank × List Holding) :=
  if b.isFull && b.marks.contains true then b.evictLongestIdle else .ok (b, [])

def takeIfRoom (b : Bank) (l : Location) : Except Fault Bank := if b.isFull then .ok b else b.take l

/-- Gives a slot to a requested location that is used more than once, in place of a marked one if
all slots are in use. -/
def accept {α : Type} [Arithmetic α] (state : Bank × List Holding) (request : Location × α) :
    Except Fault (Bank × List Holding) :=
  let (b, out) := state
  if b.holds request.1 || Arithmetic.le request.2 Arithmetic.one then .ok (b, out)
  else do
    let (b, more) ← b.makeRoom
    return (← b.takeIfRoom request.1, out ++ more)

def acceptRest (b : Bank) (l : Location) : Except Fault Bank :=
  if b.holds l then .ok b else b.takeIfRoom l

/-- What a load did: the new bank, the evictions in order, and for each holding whether it is
new. -/
structure Loaded where
  bank : Bank
  evicted : List Holding
  fresh : List (Holding × Bool)
  deriving Repr, Inhabited

def prepare (b : Bank) (wanted : List Location) : Except Fault Bank :=
  markIdle { b with held := b.held.map Holding.wait } wanted

def outcome (before after : Bank) (evicted : List Holding) : Loaded where
  bank := after
  evicted := evicted
  fresh := after.held.map fun h => (h, !before.holds h.location)

def load {α : Type} [Arithmetic α] (b : Bank) (wanted : List (Location × α)) :
    Except Fault Loaded := do
  let start ← b.prepare (wanted.map (·.1))
  let requests := sortByUse wanted
  let (middle, evicted) ← requests.foldlM accept (start, [])
  let last ← requests.foldlM (fun b r => b.acceptRest r.1) middle
  return outcome b last evicted

/-- Loads locations without estimates, which is possible only if all of them are held. -/
def reload (b : Bank) (wanted : List Location) : Except Fault Loaded := do
  let start ← b.prepare wanted
  if wanted.all start.holds then return outcome b start [] else throw .wrongKind

/-- Loads locations with estimates of their use, if there are any; each location needs one. -/
def request {α : Type} [Arithmetic α] (b : Bank) (wanted : List Location)
    (uses : Option (List α)) : Except Fault Loaded :=
  match uses with
  | none => b.reload wanted
  | some us =>
    if us.length < wanted.length then .error .missingEntry else b.load (wanted.zip us)

/-- Marks exactly the holdings of the given locations, by their rank among the holdings. -/
def mark (b : Bank) (locations : List Location) : Bank :=
  { b with marks := b.held.map fun h => locations.any (·.serves h.location) }

/-- The text of a location, which is its slot's address if it is held, and the bank after this
use. -/
def access (b : Bank) (l : Location) : Bank × String :=
  match b.find? l with
  | some h => (b.use l, h.slot.address)
  | none => (b, l.text)

def declaration (indent : Nat) : String :=
  String.ofList (List.replicate indent ' ') ++ "extern volatile __shared__ double shared_temp[];\n"

def loadText (indent : Nat) (h : Holding) : String :=
  String.ofList (List.replicate indent ' ') ++ h.slot.address ++ " = " ++ h.location.text ++ ";\n"

def Loaded.text (l : Loaded) (indent : Nat) : String :=
  String.join ((l.fresh.filter (·.2)).map fun (h, _) => loadText indent h)

end Bank

end Kinetics.Accelerator
