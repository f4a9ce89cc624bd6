import Kinetics.Mechanism.Reaction
import Kinetics.Number.Numeral
import Kinetics.Scalar
import Kinetics.Text.Letter
/-!
# Reaction equations

A side of an equation is a list of terms separated by plus signs. Names may themselves end in a
plus sign or hold one in parentheses, and `(+M)` or `(+X)` names the collider of a falloff
reaction, so a side is cut at every plus sign first and put together again where that was wrong.
-/

namespace Kinetics.Reading

open Text

/-! ## Colliders -/

/-- What stands in the first pair of parentheses, and where it starts and ends. If the closing
parenthesis is missing, the last character takes its place in the content, and the text after it
starts anew. -/
structure Parenthesis where
  start : Nat
  content : List Char
  next : Nat
  closed : Bool
  deriving Repr, DecidableEq, Inhabited

def firstParenthesis (s : List Char) : Option Parenthesis :=
  match find? ['('] s with
  | none => none
  | some start =>
    match find? [')'] s with
    | some finish => some ⟨start, slice s (start + 1) finish, finish + 1, true⟩
    | none => some ⟨start, slice s (start + 1) (s.length - 1), 0, false⟩

def cutParenthesis (side rest : List Char) (p : Parenthesis) : List Char :=
  let offset := (find? rest side).getD 0
  side.take (p.start + offset) ++ side.drop (p.next + offset)

def colliderName (content : List Char) : List Char := strip (replaceChar '+' ' ' content)

/-- Looks for a collider in `rest`, an end part of a side: gives its name and the side without it.
A parenthesis that holds only a plus sign belongs to a name. -/
def findCollider (side rest : List Char) : Except Fault (Option (List Char × List Char)) :=
  match firstParenthesis rest with
  | none => .ok none
  | some p =>
    match strip p.content with
    | [] => .error .missingEntry
    | c :: more =>
      if c = '+' && !more.isEmpty then
        .ok (some (colliderName p.content, cutParenthesis side rest p))
      else if h : 0 < p.next ∧ rest ≠ [] then findCollider side (rest.drop p.next)
      else .error .unacceptable
termination_by rest.length
decreasing_by
  have := List.length_pos_iff.2 h.2
  simp only [List.length_drop]
  omega

/-! ## Terms -/

/-- Puts plus signs back to the names they ended: an empty piece stands for a plus sign of the
piece before it. Before the first piece comes the last one. -/
def mergeEmpty (pieces : List (List Char)) : List (List Char) :=
  if h : [] ∈ pieces then
    let i := pieces.idxOf []
    let before := if i = 0 then pieces.length - 1 else i - 1
    mergeEmpty ((pieces.modify before (· ++ ['+'])).eraseIdx i)
  else pieces
termination_by pieces.length
decreasing_by
  have hi := List.idxOf_lt_length_of_mem h
  rw [List.length_eraseIdx_of_lt (by simpa using hi)]
  simp
  omega

def isCut (a b : List Char) : Bool := a.getLast? == some '(' && b.head? == some ')'

/-- Joins a piece with the one after it if they are halves of a name. Equal pieces are not told
apart: the first of them is looked at. -/
def joinNext (pieces : List (List Char)) (piece : List Char) : List (List Char) :=
  let i := pieces.idxOf piece
  match pieces[i + 1]? with
  | none => pieces
  | some next =>
    if isCut piece next then (pieces.set i (piece ++ '+' :: next)).eraseIdx (i + 1) else pieces

theorem length_joinNext_le (pieces : List (List Char)) (piece : List Char) :
    (joinNext pieces piece).length ≤ pieces.length := by
  unfold joinNext
  simp only
  split
  · exact Nat.le_refl _
  · split
    · exact Nat.le_trans (List.length_eraseIdx_le _ _) (by simp)
    · exact Nat.le_refl _

def joinHalves (i : Nat) (pieces : List (List Char)) : List (List Char) :=
  if h : i < pieces.length then joinHalves (i + 1) (joinNext pieces pieces[i]) else pieces
termination_by pieces.length - i
decreasing_by
  have := length_joinNext_le pieces pieces[i]
  omega

def termTexts (side : List Char) : List (List Char) :=
  joinHalves 0 (mergeEmpty (splitAtChar '+' side))

/-- The position of the first letter, or of the last character if there is no letter. -/
def nameStart (s : List Char) : Nat :=
  match s.findIdx? isLetter with
  | some i => i
  | none => s.length - 1

def readCoefficient (s : List Char) : Except Fault Scalar := do
  if s.contains '.' then return .float (← Number.readReal s)
  else return .int (← Number.readWhole s)

def readTerm (piece : List Char) : Except Fault (Scalar × List Char) := do
  let s := strip piece
  if s.head?.any isDigit then
    let i := nameStart s
    return (← readCoefficient (s.take i), strip (s.drop i))
  else return (.int 1, s)

def isAnyBody (name : List Char) : Bool := lower name == ['m']

structure Side where
  names : List String := []
  nu : List Scalar := []
  thirdBody : Bool := false
  deriving Repr, Inhabited

def Side.add (side : Side) (nu : Scalar) (name : List Char) : Side :=
  if isAnyBody name then { side with thirdBody := true }
  else
    let name := String.ofList name
    match side.names.idxOf? name with
    | some i => { side with nu := side.nu.modify i (· + nu) }
    | none => { side with names := side.names ++ [name], nu := side.nu ++ [nu] }

def readTerms (side : List Char) : Except Fault Side :=
  (termTexts side).foldlM (fun s piece => do
    let (nu, name) ← readTerm piece
    return s.add nu name) {}

/-! ## Equations -/

structure Equation where
  reversible : Bool
  reactants : Side
  products : Side
  falloff : Bool
  /-- The collider of a falloff reaction, if it is a particular one. -/
  collider : Option String
  deriving Repr, Inhabited

def Equation.thirdBody (e : Equation) : Bool :=
  (e.reactants.thirdBody || e.products.thirdBody) && !e.falloff

def splitArrow (s : List Char) : Except Fault (Bool × List Char × List Char) :=
  let cut := fun (reversible : Bool) (width i : Nat) =>
    .ok (reversible, strip (s.take i), strip (s.drop (i + width)))
  match find? ['<', '=', '>'] s with
  | some i => cut true 3 i
  | none =>
    match find? ['=', '>'] s with
    | some i => cut false 2 i
    | none =>
      match find? ['='] s with
      | some i => cut true 1 i
      | none => .error .notListed

/-- Takes the collider from a side: the rest, whether there is one, and its name unless it is any
molecule. -/
def takeCollider (side : List Char) :
    Except Fault (List Char × Option (Option String)) := do
  match ← findCollider side side with
  | none => return (side, none)
  | some (name, rest) =>
    return (rest, some (if isAnyBody name || name.isEmpty then none else some (String.ofList name)))

/-- Reads an equation. A collider among the products overrides one among the reactants. -/
def readEquation (s : List Char) : Except Fault Equation := do
  let (reversible, left, right) ← splitArrow s
  let (left, first) ← takeCollider left
  let reactants ← readTerms left
  let (right, second) ← takeCollider right
  let products ← readTerms right
  let collider := second.or first
  return { reversible, reactants, products, falloff := collider.isSome, collider := collider.join }

end Kinetics.Reading
