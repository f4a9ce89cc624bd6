import Kinetics.Fault
import Kinetics.Number.Digits
import Kinetics.Text.Case
import Kinetics.Text.Digit
import Kinetics.Text.Slice
/-!
# Reading numbers

Numerals in input files may have blanks around them, decimal digits of any script, and single
underscores between digits. Real numerals have an optional point and exponent; infinity and the
undefined value are spelled out.
-/

namespace Kinetics.Number

open Text

/-- Whether a character may stand around a numeral. In a text of ASCII characters these are the
space and the controls from tab to carriage return; elsewhere every blank. -/
def isMargin (ascii : Bool) (c : Char) : Bool :=
  if ascii then decide (9 ≤ c.toNat ∧ c.toNat ≤ 13) || c = ' ' else isBlank c

def trim (s : List Char) : List Char :=
  let ascii := s.all fun c => decide (c.toNat < 128)
  ((s.dropWhile (isMargin ascii)).reverse.dropWhile (isMargin ascii)).reverse

/-- Removes underscores that stand between two digits; any other underscore is no numeral. The
flag says whether the character before was a digit. -/
def joinDigits : Bool → List Char → Option (List Char)
  | _, [] => some []
  | afterDigit, '_' :: c :: rest =>
    if afterDigit && (digitValue? c).isSome then joinDigits false (c :: rest) else none
  | _, ['_'] => none
  | _, c :: rest => (joinDigits (digitValue? c).isSome rest).map (c :: ·)

/-- The longest run of digits at the start, as a value with its length, and the rest. -/
def takeDigits : List Char → (Nat × Nat) × List Char
  | s =>
    let ds := s.takeWhile fun c => (digitValue? c).isSome
    ((ds.foldl (fun n c => 10 * n + (digitValue? c).getD 0) 0, ds.length), s.drop ds.length)

def takeSign : List Char → Bool × List Char
  | '-' :: rest => (true, rest)
  | '+' :: rest => (false, rest)
  | s => (false, s)

def nearest (m : Nat) (e : Int) : Float :=
  let digits := (numeral m).length
  if m = 0 then 0.0
  else if (digits : Int) + e > 400 then Float.ofScientific 1 false 400
  else if (digits : Int) + e < -400 then 0.0
  else Float.ofScientific m (decide (e < 0)) e.natAbs

def takeExponent : List Char → Option Int
  | [] => some 0
  | c :: rest =>
    if c = 'e' || c = 'E' then
      let (negative, rest) := takeSign rest
      let ((n, count), rest) := takeDigits rest
      if count = 0 || !rest.isEmpty then none else some (if negative then -(n : Int) else n)
    else none

def magnitude (s : List Char) : Option Float :=
  let word := String.ofList (lower s)
  if word == "inf" || word == "infinity" then some (Float.ofScientific 1 false 400)
  else if word == "nan" then some (0.0 / 0.0)
  else
    let ((whole, wholeCount), rest) := takeDigits s
    let ((fraction, fractionCount), rest) := match rest with
      | '.' :: rest => takeDigits rest
      | rest => ((0, 0), rest)
    if wholeCount + fractionCount = 0 then none
    else do
      let e ← takeExponent rest
      let m := whole * Nat.pow 10 fractionCount + fraction
      return nearest m (e - (fractionCount : Int))

def readReal (s : List Char) : Except Fault Float :=
  let value := do
    let s ← joinDigits false (trim s)
    let (negative, rest) := takeSign s
    let x ← magnitude rest
    return if negative then -x else x
  match value with
  | some x => .ok x
  | none => .error .notNumeric

def wholeDigitLimit : Nat := 4300

def readWhole (s : List Char) : Except Fault Int :=
  let value := do
    let s ← joinDigits false (trim s)
    let (negative, rest) := takeSign s
    let ((n, count), rest) := takeDigits rest
    if count = 0 || !rest.isEmpty || decide (wholeDigitLimit < count) then none
    else some (if negative then -(n : Int) else (n : Int))
  match value with
  | some n => .ok n
  | none => .error .notNumeric

/-- The numbers in a text, which are separated by blanks or by a given separator. -/
def readRow (separator : Option String) (s : String) : Except Fault (List Float) :=
  match separator with
  | none => (Text.fields s.toList).mapM readReal
  | some sep =>
    if sep.isEmpty then .error .unacceptable else (Text.splitOn sep.toList s.toList).mapM readReal

end Kinetics.Number
