import Mathlib
import Kinetics.Proofs.Outcome
/-!
# Triples

Statements about all results of a computation as Hoare triples. So the conditions of a whole function
can be generated from those of its parts.
-/

namespace Kinetics

open Std.Do

variable {ε α β : Type} {P : α → Prop} {x : Except ε α}

lemma triple_iff_yields : (⦃⌜True⌝⦄ x ⦃⇓? a => ⌜P a⌝⦄) ↔ Yields P x := by
  constructor
  · rintro h a rfl
    exact h trivial
  · intro h
    cases x with
    | ok a => exact fun _ => h a rfl
    | error e => exact fun _ => trivial

/-! ## Computations whose result does not matter -/

lemma any_result (x : Except ε α) : ⦃⌜True⌝⦄ x ⦃⇓? _ => ⌜True⌝⦄ := triple_iff_yields.2 fun _ _ => trivial

@[spec] lemma entryAt_any (xs : List α) (i : ℕ) : ⦃⌜True⌝⦄ entryAt xs i ⦃⇓? _ => ⌜True⌝⦄ := any_result _

@[spec] lemma lastEntry_any (xs : List α) : ⦃⌜True⌝⦄ lastEntry xs ⦃⇓? _ => ⌜True⌝⦄ := any_result _

section Arithmetic
variable [Arithmetic α] (x y : α)

@[spec] lemma div_any : ⦃⌜True⌝⦄ Arithmetic.div x y ⦃⇓? _ => ⌜True⌝⦄ := any_result _

@[spec] lemma inverse_any : ⦃⌜True⌝⦄ Arithmetic.inverse x ⦃⇓? _ => ⌜True⌝⦄ := any_result _

@[spec] lemma log_any : ⦃⌜True⌝⦄ Arithmetic.log x ⦃⇓? _ => ⌜True⌝⦄ := any_result _

end Arithmetic

/-! ## Computations that end at once -/

@[spec] lemma throw_any (e : ε) : ⦃⌜True⌝⦄ (throw e : Except ε α) ⦃⇓? _ => ⌜False⌝⦄ := fun _ => trivial

@[spec] lemma ok_any (a : α) {Q} : ⦃Q.1 a⦄ (Except.ok a : Except ε α) ⦃Q⦄ := Triple.pure a .rfl

end Kinetics
