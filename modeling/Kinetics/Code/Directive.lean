import Kinetics.Number.Numeral
/-!
# Marked numbers

Generated headers hold numbers after fixed words. These functions find them again.
-/

namespace Kinetics.Code

def leadingDigits (s : List Char) : List Char := s.takeWhile fun c => (Text.digitValue? c).isSome

def lineBody (line : List Char) : List Char :=
  if line.getLast? == some '\n' then line.dropLast else line

def markedNumber (words : String) (line : List Char) : Option Nat :=
  if Text.startsWith words.toList line then
    let digits := line.drop words.length
    if digits.isEmpty || leadingDigits digits != digits then none
    else ((Number.readWhole digits).toOption).map Int.toNat
  else none

def findNumber (words : String) : List Char → Option Nat
  | [] => none
  | c :: rest =>
    let digits := leadingDigits ((c :: rest).drop words.length)
    if Text.startsWith words.toList (c :: rest) && !digits.isEmpty then
      ((Number.readWhole digits).toOption).map Int.toNat
    else findNumber words rest

end Kinetics.Code
