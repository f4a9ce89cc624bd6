import Kinetics.Arithmetic
import Kinetics.Number.Layout
/-!
# Scalars

A scalar is a count (an integer of any size) or a measurement (a floating-point number). Counts
combine exactly with counts; a measurement makes the result a measurement.
-/

namespace Kinetics

inductive Scalar where
  | int (n : Int)
  | float (x : Float)
  deriving Repr, Inhabited

namespace Scalar

def floatOfInt (n : Int) : Float :=
  if n < 0 then -(Float.ofScientific n.natAbs false 0) else Float.ofScientific n.natAbs false 0

def toFloat : Scalar → Float
  | .int n => floatOfInt n
  | .float x => x

def fraction (negative : Bool) (b : Number.Binary) : Int × Nat :=
  let m : Int := if negative then -(b.mantissa : Int) else b.mantissa
  if b.exponent < 0 then (m, Nat.pow 2 b.exponent.natAbs)
  else (m * (Nat.pow 2 b.exponent.natAbs : Nat), 1)

/-- How an integer compares with a floating-point number, exactly; `none` if the latter is not a
number. -/
def compareIntFloat (n : Int) (x : Float) : Option Ordering :=
  match Number.decode x with
  | .undefined => none
  | .infinite negative => some (if negative then .gt else .lt)
  | .finite negative b =>
    let (num, den) := fraction negative b
    some (compare (n * (den : Int)) num)

def compareValue : Scalar → Scalar → Option Ordering
  | .int m, .int n => some (compare m n)
  | .int m, .float y => compareIntFloat m y
  | .float x, .int n => (compareIntFloat n x).map Ordering.swap
  | .float x, .float y =>
    if x < y then some .lt else if y < x then some .gt else if x == y then some .eq else none

/-- Applies an exact operation to counts and a floating-point operation otherwise. -/
def combine (exact : Int → Int → Int) (approximate : Float → Float → Float) :
    Scalar → Scalar → Scalar
  | .int m, .int n => .int (exact m n)
  | a, b => .float (approximate a.toFloat b.toFloat)

def div (a b : Scalar) : Except Fault Scalar :=
  if b.toFloat == 0.0 then .error .divisionByZero else .ok (.float (a.toFloat / b.toFloat))

/-- The power of measurements; a finite base and exponent must not give an infinite result. -/
def powFloat (x y : Float) : Except Fault Scalar :=
  if x == 0.0 && y < 0.0 then .error .divisionByZero
  else
    let r := Float.pow x y
    if r.isInf && x.isFinite && y.isFinite then .error .overflow else .ok (.float r)

def pow : Scalar → Scalar → Except Fault Scalar
  | .int m, .int n =>
    if 0 ≤ n then .ok (.int (Int.pow m n.toNat)) else powFloat (floatOfInt m) (floatOfInt n)
  | a, b => powFloat a.toFloat b.toFloat

/-- A logarithm, defined on positive numbers; what is not a number passes through. -/
def logWith (f : Float → Float) (a : Scalar) : Except Fault Scalar :=
  let x := a.toFloat
  if x <= 0.0 then .error .outOfDomain else .ok (.float (f x))

def isWhole : Scalar → Bool
  | .int _ => true
  | .float x => x.isFinite && x.floor == x

def wholePart : Scalar → Int
  | .int n => n
  | .float x =>
    match Number.decode x with
    | .finite negative b =>
      let (num, den) := fraction negative b
      num.tdiv den
    | _ => 0

def text : NumberFormat → Scalar → String
  | .scientific places, a => Number.scientific places a.toFloat
  | .shortest, .int n => toString n
  | .shortest, .float x => Number.shortestText x
  | .bounded digits, a => Number.boundedText digits a.toFloat

instance : Arithmetic Scalar where
  add := combine (· + ·) (· + ·)
  sub := combine (· - ·) (· - ·)
  mul := combine (· * ·) (· * ·)
  neg
    | .int n => .int (-n)
    | .float x => .float (-x)
  ofInt n := .int n
  ofDecimal d := .float d.toFloat
  div := div
  part a n := .float (a.toFloat / floatOfInt n)
  pow := pow
  log := logWith Float.log
  log10 := logWith Float.log10
  exp a := .float (Float.exp a.toFloat)
  abs
    | .int n => .int n.natAbs
    | .float x => .float x.abs
  eq a b := compareValue a b == some .eq
  lt a b := compareValue a b == some .lt
  le a b := match compareValue a b with
    | some .lt | some .eq => true
    | _ => false
  isWhole := isWhole
  wholePart := wholePart
  isCount
    | .int _ => true
    | .float _ => false
  pointed a := .float a.toFloat
  writable
    | .bounded _, .int _ => false
    | _, _ => true

end Scalar

end Kinetics
