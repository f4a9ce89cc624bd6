import Kinetics.Scalar
/-!
# Resources of an accelerator

Sizes of the fast memories of a multiprocessor, in doubles, and what is left for one block or one
thread of it.
-/

namespace Kinetics.Accelerator

/-- The larger of the two parts into which a multiprocessor's memory is divided, in bytes. -/
def largePart : Nat := 49152

def smallPart : Nat := 16384

def bytesPerDouble : Nat := 8

def cacheSize (preferCache : Bool) : Nat :=
  (if preferCache then largePart else smallPart) / bytesPerDouble

def sharedSize (preferCache : Bool) : Nat :=
  (if preferCache then smallPart else largePart) / bytesPerDouble

def floorDiv (a b : Int) : Except Fault Int :=
  if b = 0 then .error .divisionByZero else .ok (Int.fdiv a b)

def floatLimit : Nat := Nat.pow 2 1024 - Nat.pow 2 970

/-- The number of parts into which a measured amount is divided; a floating-point number holds it. -/
def divisor (parts : Int) : Except Fault Int :=
  if parts.natAbs < floatLimit then .ok parts else .error .overflow

def sharedPerBlock (blocks : Int) (preferCache : Bool) : Except Fault Int := do
  floorDiv (sharedSize preferCache) (← divisor blocks)

def sharedPerThread (blocks threads : Int) (preferCache : Bool) : Except Fault Int := do
  floorDiv (← sharedPerBlock blocks preferCache) threads

def registers : Nat := 32768

def registerLimit : Nat := 63

def registersPerThread (blocks threads : Int) : Except Fault Scalar := do
  let perBlock ← Scalar.div (.int registers) (.int blocks)
  let share ← Scalar.div perBlock (.int (← divisor threads))
  let atMost : Scalar := if Arithmetic.lt (.int registerLimit) share then .int registerLimit else share
  return if Arithmetic.lt atMost (.int 1) then .int 1 else atMost

end Kinetics.Accelerator
