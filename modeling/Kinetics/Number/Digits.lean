import Kinetics.Number.Binary
/-!
# Decimal digits of a binary number

Two ways of choosing digits for `m * 2 ^ q`: a given number of significant digits, rounded to
nearest with ties to the even neighbour, and the fewest digits that still identify the number.
Both work in exact natural arithmetic.
-/

namespace Kinetics.Number

/-- Decimal digits `d₁ d₂ … dₙ` standing for `d₁.d₂…dₙ * 10 ^ exponent`. -/
structure Digits where
  digits : List Char
  exponent : Int
  deriving Repr, DecidableEq

def roundHalfEven (num den : Nat) : Nat :=
  let q := num / den
  let r := num % den
  if 2 * r < den then q
  else if 2 * r > den then q + 1
  else if q % 2 = 0 then q else q + 1

def quotient (m : Nat) (q k : Int) : Nat × Nat :=
  ((m <<< q.toNat) * Nat.pow 10 (-k).toNat, (1 <<< (-q).toNat) * Nat.pow 10 k.toNat)

def reaches (m : Nat) (q k : Int) : Bool :=
  let (num, den) := quotient m q k
  den ≤ num

/-- The exponent of the leading decimal digit of a positive `m * 2 ^ q`. The binary length gives
it up to one step, which comparison with powers of ten settles. -/
def leadingExponent (m : Nat) (q : Int) : Int :=
  let guess := (((Nat.log2 m : Int) + q) * 30103).fdiv 100000
  if reaches m q (guess + 1) then guess + 1
  else if reaches m q guess then guess
  else guess - 1

def numeral (n : Nat) : List Char :=
  Nat.toDigits 10 n

def significant (b : Binary) (count : Nat) : Digits :=
  if b.mantissa = 0 then ⟨List.replicate (max count 1) '0', 0⟩
  else
    let e := leadingExponent b.mantissa b.exponent
    let n := max count 1
    let (num, den) := quotient b.mantissa b.exponent (e - (n : Int) + 1)
    let d := roundHalfEven num den
    if d = Nat.pow 10 n then ⟨numeral (d / 10), e + 1⟩ else ⟨numeral d, e⟩

/-- Whether `n * 10 ^ k` rounds to the number: it lies between the midpoints to the two
neighbours, the midpoints included when the mantissa is even. -/
def identifies (b : Binary) (n : Nat) (k : Int) : Bool :=
  let low := 4 * b.mantissa - b.quartersBelow
  let high := 4 * b.mantissa + 2
  let (lowNum, den) := quotient low (b.exponent - 2) k
  let (highNum, _) := quotient high (b.exponent - 2) k
  if b.mantissa % 2 = 0 then lowNum ≤ n * den && n * den ≤ highNum
  else lowNum < n * den && n * den < highNum

def gridPoint (b : Binary) (k : Int) : Option Nat :=
  let (num, den) := quotient b.mantissa b.exponent k
  let below := num / den
  let above := below + 1
  let lowHit := identifies b below k && below ≠ 0
  let highHit := identifies b above k
  if lowHit && highHit then
    let r := 2 * (num % den)
    if r < den then some below
    else if r > den then some above
    else if below % 2 = 0 then some below else some above
  else if lowHit then some below
  else if highHit then some above
  else none

def dropTrailingZeros : List Char → List Char
  | [] => []
  | d :: ds => d :: (ds.reverse.dropWhile (· = '0')).reverse

/-- Tries ever finer decimal grids, starting with one digit. Seventeen digits always identify a
number, so `fuel` never runs out when it starts at seventeen. -/
def shortestFrom (b : Binary) (lead : Int) : Nat → Nat → Digits
  | 0, count => significant b count
  | fuel + 1, count =>
    let k := lead - (count : Int) + 1
    match gridPoint b k with
    | some n =>
      let ds := numeral n
      ⟨dropTrailingZeros ds, k + (ds.length : Int) - 1⟩
    | none => shortestFrom b lead fuel (count + 1)

def shortest (b : Binary) : Digits :=
  if b.mantissa = 0 then ⟨['0'], 0⟩
  else shortestFrom b (leadingExponent b.mantissa b.exponent) 17 1

end Kinetics.Number
