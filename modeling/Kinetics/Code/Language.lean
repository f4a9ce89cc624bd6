import Kinetics.Fault
/-!
# Target languages

The languages in which code can be emitted, and what differs between them on the level of single
lines: brackets of array elements, ends of statements, comment marks, file names.
-/

namespace Kinetics

inductive Language where
  | c
  | cuda
  | fortran
  | matlab
  deriving Repr, DecidableEq, Inhabited

namespace Language

def all : List Language := [.c, .cuda, .fortran, .matlab]

def name : Language → String
  | .c => "c"
  | .cuda => "cuda"
  | .fortran => "fortran"
  | .matlab => "matlab"

def ofName (s : String) : Except Fault Language :=
  match all.find? (·.name == s) with
  | some l => .ok l
  | none => .error (.unknownName s)

/-- Whether the language writes blocks in braces and counts array elements from zero. -/
def isBraced : Language → Bool
  | .c | .cuda => true
  | .fortran | .matlab => false

def commentMark : Language → String
  | .c | .cuda => "//"
  | .fortran => "!"
  | .matlab => "%"

def statementEnd : Language → String
  | .c | .cuda | .matlab => ";\n"
  | .fortran => "\n"

def sourceSuffix : Language → String
  | .c => ".c"
  | .cuda => ".cu"
  | .fortran => ".f90"
  | .matlab => ".m"

def headerSuffix : Language → Except Fault String
  | .c => .ok ".h"
  | .cuda => .ok ".cuh"
  | l => .error (.unknownName l.name)

/-- The qualifier of pointers without aliases, in the languages that have pointers. -/
def noAlias : Language → Except Fault String
  | .c | .cuda => .ok "__restrict__"
  | l => .error (.unknownName l.name)

def deviceMark : Language → String
  | .cuda => "__device__ "
  | _ => ""

def tenPowerStart : Language → String
  | .c => "pow(10.0, "
  | .cuda => "exp10("
  | .fortran => "exp(log(10) * "
  | .matlab => "exp(log(10.0) * "

def element (l : Language) (array : String) (index : Int) : String :=
  match l with
  | .c => array ++ "[" ++ toString index ++ "]"
  | .cuda => array ++ "[INDEX(" ++ toString index ++ ")]"
  | .fortran | .matlab => array ++ "(" ++ toString (index + 1) ++ ")"

/-- The text of a matrix entry; languages that count from zero use the first index alone. -/
def entry (l : Language) (array : String) (row column : Int) : String :=
  if l.isBraced then l.element array row
  else array ++ "(" ++ toString (row + 1) ++ ", " ++ toString (column + 1) ++ ")"

def indexText (l : Language) (index : Int) : String :=
  if l.isBraced then toString index else toString (index + 1)

end Language

end Kinetics
