import Kinetics.Code.Directive
import Kinetics.Ordering.CacheOrder
import Kinetics.Ordering.LastSpecies
/-!
# Orders of generated code

Generated code may hold species and reactions in another order than the mechanism. Before the two
are compared, the order is recovered from the generated header, and from the saved order if the
header says that the code was reordered.
-/

namespace Kinetics.Comparison

/-! ## The mechanism to compare with -/

inductive ReactionKind where
  | elementary
  | threeBody
  | falloff
  | chemicallyActivated
  | plog
  | chebyshev
  deriving Repr, DecidableEq, Inhabited

def ReactionKind.ofName : String → ReactionKind
  | "ThreeBodyReaction" => .threeBody
  | "FalloffReaction" => .falloff
  | "ChemicallyActivatedReaction" => .chemicallyActivated
  | "PlogReaction" => .plog
  | "ChebyshevReaction" => .chebyshev
  | _ => .elementary

def ReactionKind.isModified : ReactionKind → Bool
  | .threeBody | .falloff | .chemicallyActivated => true
  | _ => false

structure ReferenceReaction where
  kind : ReactionKind
  reversible : Bool
  deriving Repr, DecidableEq, Inhabited

structure Reference where
  speciesCount : Nat
  reactions : List ReferenceReaction
  deriving Repr, Inhabited

/-! ## What the header says -/

def declaredCounts (header : String) : Option Nat × Option Nat :=
  let lines := (Text.lines header).map Code.lineBody
  (lines.findSome? (Code.markedNumber "#define NSP "),
    lines.findSome? (Code.markedNumber "#define FWD_RATES "))

structure Marks where
  reordered : Bool := false
  last : Option Nat := none
  deriving Repr, DecidableEq, Inhabited

def reorderedMark : List Char := "Cache Optimized".toList

def readMarks (m : Marks) : List (List Char) → Marks
  | [] => m
  | line :: rest =>
    let last := match Code.markedNumber "//last_spec " (Code.lineBody line) with
      | some k => some k
      | none => m.last
    let m := { reordered := m.reordered || Text.occurs reorderedMark line, last }
    if m.reordered && m.last.isSome then m else readMarks m rest

/-! ## Maps between orders -/

structure SavedOrder where
  speciesForward : List Int
  reactionsForward : List Int
  speciesBackward : List Int
  reactionsBackward : List Int
  deriving Repr, DecidableEq, Inhabited

def SavedOrder.ofLists : List (List Int) → Except Fault SavedOrder
  | a :: b :: c :: d :: _ => .ok ⟨a, b, c, d⟩
  | _ => .error .truncated

def identity (n : Nat) : List Int := (List.range n).map Int.ofNat

/-- The order that the marks and the saved order give, with whether it differs from that of the
mechanism. -/
def orderOf (r : Reference) (m : Marks) (saved : Except Fault (List (List Int))) :
    Except Fault (Bool × SavedOrder) := do
  let n := r.speciesCount
  let reactions := identity r.reactions.length
  if m.reordered then return (true, ← SavedOrder.ofLists (← saved))
  match m.last with
  | none => throw .wrongKind
  | some last =>
    if last + 1 = n then return (false, ⟨identity n, reactions, identity n, reactions⟩)
    let (forward, backward) ← Ordering.lastSpeciesMaps n last
    return (true, ⟨forward.map Int.ofNat, reactions, backward.map Int.ofNat, reactions⟩)

def afterTemperature (xs : List Int) : List Int := 0 :: xs.map (· + 1)

def ranked (xs : List Int) : List Nat := (xs.mergeSort (· ≤ ·)).map (xs.idxOf ·)

def inverse (xs : List Nat) : Except Fault (List Nat) :=
  (List.range xs.length).mapM fun (i : Nat) =>
    match xs.idxOf? i with
    | some k => .ok k
    | none => .error .missingEntry

def Reference.reaction (r : Reference) (i : Int) : Except Fault ReferenceReaction :=
  Ordering.entryFrom r.reactions i

def Reference.select (r : Reference) (p : ReferenceReaction → Bool) (order : List Int) :
    Except Fault (List Int) :=
  order.filterM fun i => return p (← r.reaction i)

structure Orders where
  last : Option Nat
  reordered : Bool
  /-- The positions of the state without the last species. -/
  mask : List Nat
  order : SavedOrder
  stateForward : List Int
  stateBackward : List Int
  reversibleForward : List Nat
  reversibleBackward : List Nat
  modifiedForward : List Nat
  modifiedBackward : List Nat
  deriving Repr, DecidableEq, Inhabited

def recoverOrders (r : Reference) (header : String) (saved : Except Fault (List (List Int))) :
    Except Fault Orders := do
  let m := readMarks {} (Text.lines header)
  let (reordered, order) ← orderOf r m saved
  let reversibleBackward := ranked (← r.select (·.reversible) order.reactionsForward)
  let reversibleForward ← inverse reversibleBackward
  let numbers ← (List.range r.reactions.length).mapM (entryAt order.reactionsForward)
  let modifiedBackward := ranked (← r.select (·.kind.isModified) numbers)
  return {
    last := m.last, reordered, order, reversibleBackward, modifiedBackward, reversibleForward
    mask := 0 :: ((List.range r.speciesCount).filter (m.last != some ·)).map (· + 1)
    stateForward := afterTemperature order.speciesForward
    stateBackward := afterTemperature order.speciesBackward
    modifiedForward := ← inverse modifiedBackward }

def countMismatch (r : Reference) (header : String) : Option String :=
  let (species, reactions) := declaredCounts header
  if species != some r.speciesCount then
    some "Error: species counts do not match between mechanism.h and Cantera."
  else if reactions != some r.reactions.length then
    some "Error: forward reaction counts do not match between mechanism.h and Cantera."
  else none

end Kinetics.Comparison
