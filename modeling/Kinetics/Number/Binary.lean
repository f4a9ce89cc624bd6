/-!
# Binary numbers

The exact value of a floating-point number: a sign, a natural mantissa and a power of two.
-/

namespace Kinetics.Number

structure Binary where
  mantissa : Nat
  exponent : Int
  deriving Repr, DecidableEq

inductive Decoded where
  | finite (negative : Bool) (value : Binary)
  | infinite (negative : Bool)
  | undefined
  deriving Repr, DecidableEq

def decodeBits (bits : Nat) : Decoded :=
  let negative := bits.testBit 63
  let field := (bits >>> 52) % 2048
  let fraction := bits % 4503599627370496
  if field = 2047 then
    if fraction = 0 then .infinite negative else .undefined
  else if field = 0 then .finite negative ⟨fraction, -1074⟩
  else .finite negative ⟨4503599627370496 + fraction, (field : Int) - 1075⟩

def decode (x : Float) : Decoded :=
  decodeBits x.toBits.toNat

/-- Half of an even split of the numbers around a value: the reals strictly nearer to
`mantissa * 2 ^ exponent` than to its lower neighbour start this many quarters of a unit below. -/
def Binary.quartersBelow (b : Binary) : Nat :=
  if b.mantissa = 4503599627370496 ∧ b.exponent > -1074 then 1 else 2

end Kinetics.Number
