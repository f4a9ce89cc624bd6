import Kinetics.Proofs.Meaning
import Kinetics.Proofs.Outcome
import Kinetics.Rate.Arrhenius
/-!
# Rate constants

Every rate constant with a factor other than zero has an expression, and whatever
shape the expression takes, it depends on the temperature and its logarithm only.
-/

namespace Kinetics.Rate

open Code

noncomputable section

variable {σ : Memory} {e : Expr Exact} {x v : ℝ}

/-- Whether the power of the temperature is written as repeated factors. -/
def repeatsTemperature (A b E : Exact) : Prop := E.toReal = 0 ∧ b.toReal ≠ 0 ∧
    (if 0 < A.toReal then Arithmetic.isCount b else Arithmetic.isWhole b) = true

open Classical in
/-- The rate constant that the emitted expression computes. -/
def rateConstant (A b E : Exact) (T logT : ℝ) : ℝ :=
  if repeatsTemperature A b E then A.toReal * T ^ (Arithmetic.wholePart b).toNat
  else A.toReal * Real.exp (b.toReal * logT - E.toReal / T)

lemma timesTemperature_term (h : Term σ e v) (n : ℕ) : Term σ (timesTemperature e n) (v * σ.var "T" ^ n) := by
  induction n with
  | zero => simpa [timesTemperature] using h
  | succ n ih =>
    rw [pow_succ, ← mul_assoc]
    exact ih.mul (Factor.var "T").term

lemma withPower_value (h : e.value σ = some x) (b : Exact) :
    (withPower e b).value σ = some (x + b.toReal * σ.var "logT") := by
  unfold withPower
  split
  · exact value_add h ((Factor.plain b).term.mul (Factor.var "logT").term)
  · next hb =>
    rw [Exact.isPositive_iff, not_lt] at hb
    have := value_sub h ((Factor.plain (Arithmetic.abs b)).term.mul (Factor.var "logT").term)
    rw [Exact.toReal_abs, abs_of_nonpos hb, neg_mul, sub_neg_eq_add] at this
    exact this

lemma powerAlone_term (b : Exact) : Term σ (powerAlone b) (b.toReal * σ.var "logT") := by
  unfold powerAlone
  split
  · exact (Factor.plain b).term.mul (Factor.var "logT").term
  · next hb =>
    rw [Exact.isPositive_iff, not_lt] at hb
    have hs : (Expr.plain (Arithmetic.abs b)).startsSigned = false := by
      change Arithmetic.isNegative (Arithmetic.abs b) = false
      rw [Bool.eq_false_iff, Ne, Exact.isNegative_iff, Exact.toReal_abs, not_lt]
      exact abs_nonneg _
    have := ((Factor.plain (Arithmetic.abs b)).neg (σ := σ) hs).term.mul (Factor.var "logT").term
    rw [Exact.toReal_abs, abs_of_nonpos hb, neg_neg] at this
    exact this

lemma activation_factor (E : Exact) : Factor σ (activation E) (E.toReal / σ.var "T") :=
  Factor.group ((Factor.full E).term.div (Factor.var "T")).value

variable {A : Exact}

lemma arrheniusPositive_ok (hA : 0 < A.toReal) (b E : Exact) : ∃ e, arrheniusPositive A b E = .ok e ∧
      ∀ σ, Term σ e (rateConstant A b E (σ.var "T") (σ.var "logT")) := by
  have scale : ∀ y, Real.exp (Real.log A.toReal + y) = A.toReal * Real.exp y := fun y => by
    rw [Real.exp_add, Real.exp_log hA]
  have hl : ∀ σ : Memory, (Expr.full (.measure (Real.log A.toReal))).value σ =
      some (Real.log A.toReal) := fun σ => (Factor.full _).value
  simp only [arrheniusPositive, Exact.log_ok hA, ok_bind, Exact.isZero_iff]
  unfold rateConstant repeatsTemperature
  simp only [hA, if_true]
  by_cases hE : E.toReal = 0 <;> by_cases hb : b.toReal = 0
  · refine ⟨_, by rw [if_pos hE, if_pos hb]; rfl, fun σ => ?_⟩
    simpa [hE, hb] using (Factor.plain A).term
  · cases hc : Arithmetic.isCount b
    · refine ⟨_, by rw [if_pos hE, if_neg hb, if_neg (by simp)]; rfl, fun σ => ?_⟩
      have := (Factor.exp (withPower_value (hl σ) b)).term
      rw [scale] at this
      simpa [hE, hb] using this
    · refine ⟨_, by rw [if_pos hE, if_neg hb, if_pos rfl]; rfl, fun σ => ?_⟩
      simpa [hE, hb] using timesTemperature_term (Factor.plain A).term _
  · refine ⟨_, by rw [if_neg hE, if_pos hb]; rfl, fun σ => ?_⟩
    have := (Factor.exp (value_sub (hl σ) (activation_factor E).term)).term
    rw [sub_eq_add_neg, scale] at this
    simpa [hE, hb] using this
  · refine ⟨_, by rw [if_neg hE, if_neg hb]; rfl, fun σ => ?_⟩
    have := (Factor.exp (value_sub (withPower_value (hl σ) b) (activation_factor E).term)).term
    rw [add_sub_assoc, scale] at this
    simpa [hE, hb] using this

lemma arrheniusNegative_term (hA : A.toReal < 0) (b E : Exact) :
    Term σ (arrheniusNegative A b E) (rateConstant A b E (σ.var "T") (σ.var "logT")) := by
  unfold arrheniusNegative rateConstant repeatsTemperature
  simp only [Exact.isZero_iff, not_lt.2 hA.le, if_false]
  by_cases hE : E.toReal = 0 <;> by_cases hb : b.toReal = 0
  · simpa [hE, hb] using (Factor.plain A).term
  · cases hc : Arithmetic.isWhole b
    · simpa [hE, hb] using (Factor.full A).term.mul (Factor.exp (powerAlone_term b).value).term
    · simpa [hE, hb] using timesTemperature_term (Factor.plain A).term _
  · simpa [hE, hb] using (Factor.full A).term.mul (Factor.exp ((activation_factor E).neg rfl).value).term
  · simpa [hE, hb] using (Factor.full A).term.mul
      (Factor.exp (value_sub (powerAlone_term b).value (activation_factor E).term)).term

/-- A factor other than zero gives an expression, with the value of the rate constant. -/
lemma arrhenius_ok (hA : A.toReal ≠ 0) (b E : Exact) : ∃ e, arrhenius A b E = .ok e ∧
      ∀ σ, Term σ e (rateConstant A b E (σ.var "T") (σ.var "logT")) := by
  simp only [arrhenius, Exact.isPositive_iff, Exact.isNegative_iff]
  rcases lt_or_gt_of_ne hA with h | h
  · rw [if_neg h.not_gt, if_pos h]
    exact ⟨_, rfl, fun σ => arrheniusNegative_term h b E⟩
  · rw [if_pos h]
    exact arrheniusPositive_ok h b E

lemma arrheniusOf_cons (a b e : Exact) (rest : List Exact) :
    arrheniusOf (a :: b :: e :: rest) = arrhenius a b e := rfl

end

end Kinetics.Rate
