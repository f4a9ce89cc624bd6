import Kinetics.Code.SourceFile
import Kinetics.Accelerator.SharedMemory
/-!
# Targets of emission

What the writers of source files have in common: the language, whether numbers are differentiable
(so that a differentiation library can follow them), and the shared memory of an accelerator.
-/

namespace Kinetics.Emit

open Code

structure Target where
  language : Language
  /-- Whether emitted code uses a number type that records derivatives. -/
  differentiable : Bool := false
  /-- The shared memory of a thread, if it is to be used. -/
  bank : Option Accelerator.Bank := none
  deriving Inhabited

namespace Target

def onDevice (t : Target) : Bool := t.language == .cuda

def freshBank (t : Target) : Option Accelerator.Bank :=
  if t.onDevice then t.bank.map (·.reset) else none

def real (t : Target) : String := if t.differentiable then "adouble" else "double"

def fileStart (t : Target) : String := if t.differentiable then "ad_" else ""

def reference (t : Target) : String := if t.differentiable then "&" else ""

def realIncludes (t : Target) : String :=
  if t.differentiable then "#include \"adept.h\"\nusing adept::adouble;\n" else ""

def scalarType (t : Target) : String := "const " ++ t.real

def referenceType (t : Target) : String := "const " ++ t.real ++ t.reference

def inputType (t : Target) : Except Fault String := do
  return "const " ++ t.real ++ " * " ++ (← t.language.noAlias)

def outputType (t : Target) : Except Fault String := do
  return t.real ++ " * " ++ (← t.language.noAlias)

def mark (t : Target) : String := t.language.deviceMark

/-- A scalar declared in a function body: on the accelerator it is kept in a register. -/
def localReal {α : Type} (t : Target) (name : String) (value : Option (Expr α)) : Step α :=
  .declare 2 (if t.onDevice then "register double" else t.real) [name] none value .semicolon

end Target

structure Batch where
  start : Nat
  stop : Nat
  /-- The position after the last one for which the file makes declarations. -/
  declared : Nat
  deriving Repr, DecidableEq, Inhabited

/-- The positions below `n` in batches of a length. Without a positive length there is one batch. It
makes no declarations for its members if the length is zero, and a negative length counts the members
at the end that it makes none for. -/
def batches (length : Int) (n : Nat) : List Batch :=
  if n = 0 then []
  else if length < 1 then [⟨0, n, if length < 0 then (n + length).toNat else 0⟩]
  else
    let k := length.toNat
    (List.range ((n + k - 1) / k)).map fun i =>
      let stop := min ((i + 1) * k) n
      ⟨i * k, stop, stop⟩

def Batch.members {β : Type} (b : Batch) (xs : List β) : List (β × Nat) :=
  (xs.zipIdx.take b.stop).drop b.start

end Kinetics.Emit
