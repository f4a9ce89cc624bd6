import Kinetics.Number.Digits
/-!
# How numbers are written

Three layouts of decimal digits: scientific notation with a fixed number of places, the shortest
text that reads back, and a bounded number of significant digits. The last two switch between
positional and scientific notation at exponents given by a `Layout`.
-/

namespace Kinetics.Number

def exponentMark (e : Int) : String :=
  let ds := numeral e.natAbs
  let padded := if ds.length < 2 then '0' :: ds else ds
  String.ofList ('e' :: (if e < 0 then '-' else '+') :: padded)

/-- One digit, a point and the others, then the exponent; no point after a single digit. -/
def scientificText (d : Digits) : String :=
  match d.digits with
  | [] => ""
  | [c] => String.ofList [c] ++ exponentMark d.exponent
  | c :: cs => String.ofList (c :: '.' :: cs) ++ exponentMark d.exponent

def positionalText (d : Digits) : String :=
  if d.exponent < 0 then
    String.ofList ('0' :: '.' :: (List.replicate (d.exponent.natAbs - 1) '0' ++ d.digits))
  else
    let whole := d.exponent.toNat + 1
    if d.digits.length ≤ whole then
      String.ofList (d.digits ++ List.replicate (whole - d.digits.length) '0' ++ ['.', '0'])
    else
      String.ofList (d.digits.take whole ++ '.' :: d.digits.drop whole)

/-- Positional notation is used for leading exponents from -4 up to, not including, `limit`. -/
def plainText (limit : Int) (d : Digits) : String :=
  if -4 ≤ d.exponent ∧ d.exponent < limit then positionalText d else scientificText d

def signedText (body : Binary → String) : Decoded → String
  | .finite true b => "-" ++ body b
  | .finite false b => body b
  | .infinite true => "-inf"
  | .infinite false => "inf"
  | .undefined => "nan"

def scientific (places : Nat) (x : Float) : String :=
  signedText (fun b => scientificText (significant b (places + 1))) (decode x)

def shortestText (x : Float) : String :=
  signedText (fun b => plainText 16 (shortest b)) (decode x)

def boundedText (count : Nat) (x : Float) : String :=
  signedText (fun b =>
    let d := significant b count
    plainText ((max count 1 : Nat) - 1 : Int) ⟨dropTrailingZeros d.digits, d.exponent⟩) (decode x)

end Kinetics.Number
