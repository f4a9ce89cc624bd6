import Kinetics.Number.Digits
/-!
# Decimal constants

Physical constants and the fixed coefficients of rate laws are finite decimals. A `Decimal` keeps
the digits as they are written, so that one value serves exact arithmetic, floating-point
arithmetic and the text of the emitted code.
-/

namespace Kinetics

/-- The number `mantissa · 10 ^ (exponent - places)`, written with `places` digits after the point
and, unless the exponent is zero, with that exponent. -/
structure Decimal where
  mantissa : Nat
  places : Nat
  exponent : Int := 0
  deriving Repr, DecidableEq, Inhabited

namespace Decimal

def whole (n : Nat) : Decimal := ⟨n, 0, 0⟩

def toFloat (d : Decimal) : Float :=
  let e := d.exponent - (d.places : Int)
  Float.ofScientific d.mantissa (decide (e < 0)) e.natAbs

def mantissaText (d : Decimal) : List Char :=
  let ds := Number.numeral d.mantissa
  let padded := List.replicate (d.places + 1 - ds.length) '0' ++ ds
  if d.places = 0 then padded
  else
    padded.take (padded.length - d.places) ++ '.' :: padded.drop (padded.length - d.places)

def text (d : Decimal) : String :=
  if d.exponent = 0 then String.ofList d.mantissaText
  else
    String.ofList
      (d.mantissaText ++ 'e' :: (if d.exponent < 0 then ['-'] else []) ++
        Number.numeral d.exponent.natAbs)

end Decimal

end Kinetics
