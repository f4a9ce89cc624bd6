import Kinetics.Arithmetic
/-!
# Expressions of emitted code

Emitted expressions are trees. A tree keeps, beside its meaning, the layout of its text: blanks
around operators, places where a long line is broken, and the form of each number. Trees can also
hold what is no complete expression (a missing operand, a parenthesis that is never closed), so
that completeness is a property of a tree and not an assumption about it.
-/

namespace Kinetics.Code

inductive Operator where
  | plus
  | minus
  | times
  | over
  deriving Repr, DecidableEq, Inhabited

def Operator.sign : Operator → String
  | .plus => "+"
  | .minus => "-"
  | .times => "*"
  | .over => "/"

/-- A place where a line can be broken, with the indentation of the line that follows. -/
inductive Break where
  | none
  /-- The line is broken if it is already longer than the margin. -/
  | past (indent : Nat)
  /-- The line is broken; if `marked`, with a continuation mark where the language has one. -/
  | always (indent : Nat) (marked : Bool)
  deriving Repr, DecidableEq, Inhabited

/-- What stands around an operator: numbers of blanks, and breaks outside of them. -/
structure Gap where
  breakBefore : Break := .none
  before : Nat := 1
  after : Nat := 1
  breakAfter : Break := .none
  deriving Repr, DecidableEq, Inhabited

/-- An expression over numbers of type `α`. -/
inductive Expr (α : Type) where
  /-- A number computed from the mechanism. -/
  | number (format : NumberFormat) (x : α)
  /-- A fixed coefficient. -/
  | constant (d : Decimal)
  /-- A variable, or an element of an array. -/
  | element (array : String) (index : Option Int)
  /-- What a pointer points to, possibly in parentheses. -/
  | pointee (pointer : String) (wrapped : Bool)
  /-- An entry of the first column of a matrix stored by columns. -/
  | firstColumn (matrix : String) (row : Int)
  /-- An element whose position is given by a name. -/
  | named (array : String) (index : String)
  /-- A place in shared memory, private to a thread. -/
  | slot (label : String)
  | address (e : Expr α)
  /-- A negated expression, with blanks after the sign. -/
  | negate (after : Nat) (e : Expr α)
  | binary (op : Operator) (gap : Gap) (a b : Expr α)
  /-- A function of one argument; `inner` blanks follow the parenthesis. -/
  | apply (f : String) (inner : Nat) (x : Expr α)
  | apply2 (f : String) (x y : Expr α)
  | tenPower (x : Expr α)
  | group (e : Expr α)
  /-- An expression after a parenthesis that is not closed. -/
  | opened (e : Expr α)
  /-- An expression with blanks around it. -/
  | padded (before after : Nat) (e : Expr α)
  /-- Two expressions side by side, with nothing between them. -/
  | beside (a b : Expr α)
  /-- A missing operand. -/
  | hole
  deriving Repr, Inhabited

namespace Expr

variable {α : Type}

instance : Add (Expr α) := ⟨binary .plus {}⟩

instance : Sub (Expr α) := ⟨binary .minus {}⟩

instance : Mul (Expr α) := ⟨binary .times {}⟩

instance : Div (Expr α) := ⟨binary .over {}⟩

instance : Neg (Expr α) := ⟨negate 0⟩

instance (n : Nat) : OfNat (Expr α) n := ⟨constant (Decimal.whole n)⟩

instance : OfScientific (Expr α) := ⟨fun m negative e =>
  constant (if negative then ⟨m, e, 0⟩ else ⟨m, 0, e⟩)⟩

def var (name : String) : Expr α := element name none

def cell (array : String) (index : Int) : Expr α := element array (some index)

def sci (places : Nat) (x : α) : Expr α := number (.scientific places) x

/-- A number with sixteen places after the point, which determines it. -/
def full (x : α) : Expr α := sci 16 x

def plain (x : α) : Expr α := number .shortest x

/-- A number with a bounded count of significant digits; numbers without a point have no such
form. -/
def bounded [Arithmetic α] (digits : Nat) (x : α) : Except Fault (Expr α) :=
  if Arithmetic.writable (.bounded digits) x then .ok (number (.bounded digits) x)
  else .error .unprintable

def T : Expr α := var "T"

def logT : Expr α := var "logT"

def pres : Expr α := var "pres"

def exp (x : Expr α) : Expr α := apply "exp" 0 x

def log (x : Expr α) : Expr α := apply "log" 0 x

def log10 (x : Expr α) : Expr α := apply "log10" 0 x

def pow (x y : Expr α) : Expr α := apply2 "pow" x y

/-- The least positive value admitted under a logarithm. -/
def tiny : Expr α := constant ⟨10, 1, -300⟩

def atLeastTiny (x : Expr α) : Expr α := apply2 "fmax" x tiny

/-- The locations that an expression consults, in the order of its text. -/
def cells : Expr α → List (String × Option Int)
  | .element array index => [(array, index)]
  | .pointee pointer _ => [("(*" ++ pointer ++ ")", none)]
  | .firstColumn matrix row => [(matrix, some row)]
  | .address e | .negate _ e | .apply _ _ e | .tenPower e | .group e | .opened e
  | .padded _ _ e => e.cells
  | .binary _ _ a b | .apply2 _ a b | .beside a b => a.cells ++ b.cells
  | .number _ _ | .constant _ | .named _ _ | .slot _ | .hole => []

/-- Replaces locations by the slots that hold them. -/
def place (slotOf : String → Option Int → Option String) : Expr α → Expr α
  | .element array index =>
    match slotOf array index with
    | some label => .slot label
    | none => .element array index
  | .pointee pointer wrapped =>
    match slotOf ("(*" ++ pointer ++ ")") none with
    | some label => .slot label
    | none => .pointee pointer wrapped
  | .firstColumn matrix row =>
    match slotOf matrix (some row) with
    | some label => .slot label
    | none => .firstColumn matrix row
  | .address e => .address (e.place slotOf)
  | .negate after e => .negate after (e.place slotOf)
  | .apply f inner e => .apply f inner (e.place slotOf)
  | .tenPower e => .tenPower (e.place slotOf)
  | .group e => .group (e.place slotOf)
  | .opened e => .opened (e.place slotOf)
  | .padded before after e => .padded before after (e.place slotOf)
  | .binary op gap a b => .binary op gap (a.place slotOf) (b.place slotOf)
  | .apply2 f a b => .apply2 f (a.place slotOf) (b.place slotOf)
  | .beside a b => .beside (a.place slotOf) (b.place slotOf)
  | e => e

end Expr

/-- The sum of terms, joined from the left with one gap; nothing at all if there are none. -/
def sumOf {α : Type} (gap : Gap) : List (Expr α) → Expr α
  | [] => .hole
  | e :: es => es.foldl (.binary .plus gap) e

end Kinetics.Code
