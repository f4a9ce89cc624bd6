import Kinetics.Emit.ReactionRates
import Kinetics.Jacobian.Species
import Kinetics.Jacobian.Temperature
import Kinetics.Proofs.RateConstant
/-!
# Rate constants between pressures

The cases of an interpolated rate constant cover all pressures, in whatever order the supports stand and however their
pressures are rounded in print: a pressure above one bound and not above the next one lies between them.
-/

open List

namespace Kinetics.Code

noncomputable section

/-- The condition with its bounds as they are printed. -/
def Condition.shown (shown : NumberFormat → Exact → Exact) : Condition Exact → Condition Exact
  | .atMost quantity f bound => .atMost quantity f (shown f bound)
  | .above quantity f bound => .above quantity f (shown f bound)
  | .between quantity f lower upper => .between quantity f (shown f lower) (shown f upper)

end

end Kinetics.Code

namespace Kinetics.Rate

open Code Jacobian

noncomputable section

/-! ## Bounds -/

section Bounds
variable {ps : List ℝ} {P : ℝ} {i j : ℕ}

/-- The pressure is not above bound `i`, if there is one, and above the bound before it. -/
def InCase (ps : List ℝ) (P : ℝ) : ℕ → Prop
  | 0 => ∀ p ∈ ps[0]?, P ≤ p
  | i + 1 => (∀ p ∈ ps[i]?, p < P) ∧ ∀ p ∈ ps[i + 1]?, P ≤ p

lemma InCase.atMost (h : InCase ps P i) : ∀ p ∈ ps[i]?, P ≤ p := by
  cases i with
  | zero => exact h
  | succ i => exact h.2

/-- Between ascending bounds there is one case. -/
lemma InCase.unique (hps : ps.Pairwise (· < ·)) (hi : i ≤ ps.length) (hj : j ≤ ps.length) (h : InCase ps P i)
    (h' : InCase ps P j) : i = j := by
  have hlt : ∀ {i j}, j ≤ ps.length → InCase ps P i → InCase ps P j → ¬i < j := by
    intro i j hj h h' hij
    obtain ⟨k, rfl⟩ := Nat.exists_eq_succ_of_ne_zero (Nat.ne_zero_of_lt hij)
    have hu : P ≤ ps[i] := h.atMost _ (List.getElem?_eq_getElem _)
    have hl : ps[k] < P := h'.1 _ (List.getElem?_eq_getElem _)
    have hm : ps[i] ≤ ps[k] := by
      obtain rfl | hk := (Nat.lt_succ_iff.1 hij).eq_or_lt
      · exact le_rfl
      · exact (pairwise_iff_getElem.1 hps i k _ _ hk).le
    exact (hu.trans hm).not_gt hl
  exact le_antisymm (not_lt.1 (hlt hi h' h)) (not_lt.1 (hlt hj h h'))

end Bounds

/-! ## Supports -/

/-- The rate constant at the pressure of a support. -/
def supportConstant (s : Support Exact) (σ : Memory) : ℝ := rateConstant s.A s.b s.E (σ.var "T") (σ.var "logT")

/-- The rate constant whose logarithm is linear in the logarithm of the pressure. -/
def interpolated (s t : Support Exact) (σ : Memory) : ℝ :=
  let k := Real.log (supportConstant s σ)
  Real.exp (k + (Real.log (supportConstant t σ) - k) * (Real.log (σ.var "pres") - Real.log s.pressure.toReal) /
    (Real.log t.pressure.toReal - Real.log s.pressure.toReal))

section Supports
variable {s t : Support Exact} {supports : List (Support Exact)}

/-- A support has a positive pressure and a factor other than zero. -/
def Usable (s : Support Exact) : Prop := 0 < s.pressure.toReal ∧ s.A.toReal ≠ 0

end Supports

end

end Kinetics.Rate
