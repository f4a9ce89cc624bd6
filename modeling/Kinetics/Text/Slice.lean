import Kinetics.Text.Blank
/-!
# Cutting texts

Texts are lists of characters; this module has the ways of cutting them that fixed-column and
free-form input files need.
-/

namespace Kinetics.Text

def slice (s : List Char) (first last : Nat) : List Char :=
  (s.take last).drop first

def stripLeft (s : List Char) : List Char :=
  s.dropWhile isBlank

def strip (s : List Char) : List Char :=
  (stripLeft (stripLeft s).reverse).reverse

def fieldsFrom (word : List Char) : List Char → List (List Char)
  | [] => if word.isEmpty then [] else [word.reverse]
  | c :: rest =>
    if isBlank c then
      if word.isEmpty then fieldsFrom [] rest else word.reverse :: fieldsFrom [] rest
    else fieldsFrom (c :: word) rest

def fields (s : List Char) : List (List Char) :=
  fieldsFrom [] s

/-- The parts between occurrences of one character; there is one part more than occurrences. -/
def splitAtChar (sep : Char) : List Char → List (List Char)
  | [] => [[]]
  | c :: rest =>
    if c = sep then [] :: splitAtChar sep rest
    else
      match splitAtChar sep rest with
      | [] => [[c]]
      | part :: parts => (c :: part) :: parts

def startsWith : (start s : List Char) → Bool
  | [], _ => true
  | _ :: _, [] => false
  | a :: as, b :: bs => a = b && startsWith as bs

def find? (part : List Char) : List Char → Option Nat
  | [] => if part.isEmpty then some 0 else none
  | c :: rest =>
    if startsWith part (c :: rest) then some 0 else (find? part rest).map (· + 1)

def occurs (part s : List Char) : Bool :=
  (find? part s).isSome

/-- Cuts at the next occurrence of a nonempty separator, `skip` characters being left of one
that was just found. -/
def splitOnFrom (sep : List Char) : Nat → List Char → List (List Char)
  | _, [] => [[]]
  | skip + 1, _ :: rest => splitOnFrom sep skip rest
  | 0, c :: rest =>
    if startsWith sep (c :: rest) then [] :: splitOnFrom sep (sep.length - 1) rest
    else
      match splitOnFrom sep 0 rest with
      | [] => [[c]]
      | part :: parts => (c :: part) :: parts

def splitOn (sep s : List Char) : List (List Char) :=
  splitOnFrom sep 0 s

def replaceChar (old new : Char) (s : List Char) : List Char :=
  s.map fun c => if c = old then new else c

def pieces (length : Nat) (s : List Char) : List (List Char) :=
  if _h : length = 0 ∨ s = [] then []
  else s.take length :: pieces length (s.drop length)
termination_by s.length
decreasing_by
  have : s.length ≠ 0 := by
    intro h0
    exact _h (Or.inr (List.eq_nil_of_length_eq_zero h0))
  simp only [List.length_drop]
  omega

def unifyLineEnds : List Char → List Char
  | [] => []
  | '\r' :: '\n' :: rest => '\n' :: unifyLineEnds rest
  | '\r' :: rest => '\n' :: unifyLineEnds rest
  | c :: rest => c :: unifyLineEnds rest

def linesFrom (line : List Char) : List Char → List (List Char)
  | [] => if line.isEmpty then [] else [line.reverse]
  | '\n' :: rest => ('\n' :: line).reverse :: linesFrom [] rest
  | c :: rest => linesFrom (c :: line) rest

def lines (s : String) : List (List Char) :=
  linesFrom [] (unifyLineEnds s.toList)

end Kinetics.Text
