import Kinetics.Fault
import Kinetics.Number.Decimal
import Kinetics.Number.Format
/-!
# Arithmetic

The operations on numbers that mechanisms and rate laws need. Everything that computes with
mechanism data is generic in the number type, so the same definitions run on machine numbers and
can be read over exact arithmetic.
-/

namespace Kinetics

/-- A number type with the operations used on mechanism data. Operations that have no value for
some operands report the cause. -/
class Arithmetic (α : Type) extends Add α, Sub α, Mul α, Neg α where
  /-- The number with the value of an integer. -/
  ofInt : Int → α
  /-- The number nearest to a decimal constant, of the kind that carries a point. -/
  ofDecimal : Decimal → α
  div : α → α → Except Fault α
  /-- The quotient by a positive whole number. -/
  part : α → Nat → α
  pow : α → α → Except Fault α
  log : α → Except Fault α
  log10 : α → Except Fault α
  exp : α → α
  abs : α → α
  eq : α → α → Bool
  lt : α → α → Bool
  le : α → α → Bool
  isWhole : α → Bool
  /-- The value without its fraction; meant for values that are integers. -/
  wholePart : α → Int
  /-- Whether the number is of the kind without a point. -/
  isCount : α → Bool
  /-- The same value as a number that carries a point. -/
  pointed : α → α
  /-- Whether a number can be written in a form. -/
  writable : NumberFormat → α → Bool

namespace Arithmetic

variable {α : Type} [Arithmetic α]

/-- Zero, of the kind without a point. -/
def zero : α := ofInt 0

/-- One, of the kind without a point. -/
def one : α := ofInt 1

def isZero (x : α) : Bool := eq x zero

def isPositive (x : α) : Bool := lt zero x

def isNegative (x : α) : Bool := lt x zero

/-- The decimal with a whole number of tenths: `tenths 10` is one, written `1.0`. -/
def tenths (n : Nat) : α := ofDecimal ⟨n, 1, 0⟩

/-- One, of the kind that carries a point. -/
def unit : α := tenths 10

def inverse (x : α) : Except Fault α := div unit x

/-- The sum of a list from the left, starting at the count zero. -/
def sum (xs : List α) : α := xs.foldl (· + ·) zero

end Arithmetic

end Kinetics
