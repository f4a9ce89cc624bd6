import Kinetics.Code.Expr
import Kinetics.Mechanism.Reaction
/-!
# Arrhenius expressions

The rate constant `A T^b exp(-E/T)` as an expression. The shape depends on which parameters
vanish and on the sign of `A`: a positive factor goes under the exponential as its logarithm, a
negative one cannot.
-/

namespace Kinetics.Rate

open Code

variable {α : Type} [Arithmetic α]

def timesTemperature (e : Expr α) : Nat → Expr α
  | 0 => e
  | n + 1 => timesTemperature e n * .T

/-- The exponent `b log T`, added to or taken from a first term according to the sign of `b`. -/
def withPower (e : Expr α) (b : α) : Expr α :=
  if Arithmetic.isPositive b then e + .plain b * .logT
  else e - .plain (Arithmetic.abs b) * .logT

def powerAlone (b : α) : Expr α :=
  if Arithmetic.isPositive b then .plain b * .logT
  else -.plain (Arithmetic.abs b) * .logT

def activation (E : α) : Expr α := .group (.full E / .T)

def arrheniusPositive (A b E : α) : Except Fault (Expr α) := do
  let logA := .full (← Arithmetic.log A)
  if Arithmetic.isZero E then
    if Arithmetic.isZero b then return .plain A
    else if Arithmetic.isCount b then
      return timesTemperature (.plain A) (Arithmetic.wholePart b).toNat
    else return .exp (withPower logA b)
  else if Arithmetic.isZero b then return .exp (logA - activation E)
  else return .exp (withPower logA b - activation E)

/-- The rate constant with a negative factor, as the sum of duplicate reactions may need. -/
def arrheniusNegative (A b E : α) : Expr α :=
  if Arithmetic.isZero E then
    if Arithmetic.isZero b then .plain A
    else if Arithmetic.isWhole b then timesTemperature (.plain A) (Arithmetic.wholePart b).toNat
    else .full A * .exp (powerAlone b)
  else if Arithmetic.isZero b then .full A * .exp (-activation E)
  else .full A * .exp (powerAlone b - activation E)

/-- The rate constant `A T^b exp(-E/T)`; there is no expression for a factor without a sign. -/
def arrhenius (A b E : α) : Except Fault (Expr α) :=
  if Arithmetic.isPositive A then arrheniusPositive A b E
  else if Arithmetic.isNegative A then .ok (arrheniusNegative A b E)
  else .error (.unsupported "")

def arrheniusOf (parameters : List α) : Except Fault (Expr α) := do
  arrhenius (← entryAt parameters 0) (← entryAt parameters 1) (← entryAt parameters 2)

end Kinetics.Rate
