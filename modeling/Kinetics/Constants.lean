import Kinetics.Arithmetic
/-!
# Physical constants
-/

namespace Kinetics

variable {α : Type} [Arithmetic α]

def gasConstantDecimal : Decimal := ⟨83144621, 4, 0⟩

def gasConstant : α := Arithmetic.ofDecimal gasConstantDecimal

def gasConstantMolar : α := Arithmetic.ofDecimal ⟨83144621, 7, 0⟩

def joulesPerCalorie : α := Arithmetic.ofDecimal ⟨4184, 3, 0⟩

def gasConstantCalories : Except Fault α := Arithmetic.div gasConstant joulesPerCalorie

def avogadro : α := Arithmetic.ofDecimal ⟨60221367, 7, 23⟩

def atmosphere : α := Arithmetic.ofDecimal ⟨1013250, 1, 0⟩

end Kinetics
