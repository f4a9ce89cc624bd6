import Kinetics.Mechanism.Species
import Kinetics.Proofs.Exact
/-!
# Mixtures of ideal gases

The mass fractions sum to one, so the last of them is given by the others. At fixed
temperature and pressure a change of one mass fraction changes the last one and,
through the density, all concentrations: `hasDerivAt_concentration`.
-/

namespace Kinetics

noncomputable section

/-- A gas at a temperature and a pressure, with the mass fractions of all species but
the last. -/
structure Mixture where
  species : List (Species Exact)
  T : ℝ
  P : ℝ
  Y : ℕ → ℝ

namespace Mixture

variable (m : Mixture)

def count : ℕ := m.species.length

def weight (k : ℕ) : ℝ := (m.species[k]?.map (·.weight.toReal)).getD 0

variable {m} in
lemma weight_eq {s : Species Exact} {k : ℕ} (h : m.species[k]? = some s) : m.weight k = s.weight.toReal := by
  simp [weight, h]

lemma exists_last {j : ℕ} (hj : j + 1 < m.count) :
    ∃ s, m.species[m.count - 1]? = some s ∧ m.species.getLast? = some s := by
  rw [List.getLast?_eq_getElem?, count] at *
  exact ⟨_, List.getElem?_eq_getElem (by omega), List.getElem?_eq_getElem (by omega)⟩

/-- The mass fraction of a species; the last one is what the others leave. -/
def fraction (k : ℕ) : ℝ := if k + 1 = m.count then 1 - ∑ i ∈ Finset.range (m.count - 1), m.Y i else m.Y k

def moles : ℝ := ∑ k ∈ Finset.range m.count, m.fraction k / m.weight k

def meanWeight : ℝ := 1 / m.moles

def density : ℝ := m.P * m.meanWeight / ((gasConstant : Exact).toReal * m.T)

def concentration (k : ℕ) : ℝ := m.density * m.fraction k / m.weight k

/-- The same gas with another mass fraction of one species. -/
def withFraction (j : ℕ) (x : ℝ) : Mixture := { m with Y := Function.update m.Y j x }

variable {m} in
lemma density_ne_zero (hT : m.T ≠ 0) (hP : m.P ≠ 0) (hm : m.moles ≠ 0) : m.density ≠ 0 :=
  div_ne_zero (mul_ne_zero hP (one_div_ne_zero hm)) (mul_ne_zero Exact.gasConstant_pos.ne' hT)

@[simp] lemma withFraction_self (j : ℕ) : m.withFraction j (m.Y j) = m := by
  simp [withFraction]

@[simp] lemma withFraction_count (j : ℕ) (x : ℝ) : (m.withFraction j x).count = m.count := rfl

@[simp] lemma withFraction_weight (j : ℕ) (x : ℝ) (k : ℕ) : (m.withFraction j x).weight k = m.weight k := rfl

variable {m} {j : ℕ}

lemma hasDerivAt_fraction (hj : j + 1 < m.count) (k : ℕ) : HasDerivAt (fun x => (m.withFraction j x).fraction k)
      ((if k = j then 1 else 0) + (if k = m.count - 1 then -1 else 0)) (m.Y j) := by
  have hY : ∀ i, HasDerivAt (fun x => Function.update m.Y j x i) (if i = j then 1 else 0) (m.Y j) := by
    intro i
    by_cases h : i = j
    · subst h
      simpa using hasDerivAt_id' (m.Y i)
    · simpa [h] using hasDerivAt_const (m.Y j) (m.Y i)
  have hl : (k + 1 = m.count) ↔ k = m.count - 1 := by omega
  simp only [fraction, withFraction_count, hl]
  by_cases h : k = m.count - 1
  · have hs := (HasDerivAt.fun_sum (u := Finset.range (m.count - 1)) fun i _ => hY i).const_sub 1
    simp only [h, if_true]
    refine hs.congr_deriv ?_
    rw [Finset.sum_ite_eq', if_pos (Finset.mem_range.2 (by omega)), if_neg (by omega), zero_add]
  · simpa [h, withFraction] using hY k

lemma hasDerivAt_moles (hj : j + 1 < m.count) : HasDerivAt (fun x => (m.withFraction j x).moles)
      (1 / m.weight j - 1 / m.weight (m.count - 1)) (m.Y j) := by
  have hsm := HasDerivAt.fun_sum (u := Finset.range m.count) fun k _ =>
    (hasDerivAt_fraction hj k).div_const (m.weight k)
  refine hsm.congr_deriv ?_
  have hs : ∀ k, ((if k = j then (1 : ℝ) else 0) + (if k = m.count - 1 then -1 else 0)) / m.weight k =
      (if k = j then 1 / m.weight j else 0) + (if k = m.count - 1 then -1 / m.weight (m.count - 1) else 0) := by
    intro k
    rw [add_div]
    congr 1 <;> split <;> simp_all
  simp only [hs]
  rw [Finset.sum_add_distrib, Finset.sum_ite_eq', Finset.sum_ite_eq', if_pos (by simp; omega), if_pos (by simp; omega)]
  ring

/-- How a mass fraction changes a concentration at fixed temperature and pressure, in terms of the
changed mixture on the right as well. -/
lemma hasDerivAt_concentration (hj : j + 1 < m.count) (hm : m.moles ≠ 0) (k : ℕ) :
    HasDerivAt (fun x => (m.withFraction j x).concentration k)
      (-(m.meanWeight * (1 / m.weight j - 1 / m.weight (m.count - 1))) * (m.withFraction j (m.Y j)).concentration k
        + (if k = j then m.density / m.weight j else 0)
        + (if k = m.count - 1 then -(m.density / m.weight (m.count - 1)) else 0)) (m.Y j) := by
  have hml := hasDerivAt_moles hj
  have hi := ((hml.fun_inv (by simpa using hm)).const_mul (m.P / ((gasConstant : Exact).toReal * m.T))).mul
    ((hasDerivAt_fraction hj k).div_const (m.weight k))
  have hf : (fun x => (m.withFraction j x).concentration k) = fun x =>
      m.P / ((gasConstant : Exact).toReal * m.T) * (m.withFraction j x).moles⁻¹ *
        ((m.withFraction j x).fraction k / m.weight k) := by
    funext x
    simp only [concentration, density, meanWeight, withFraction_weight]
    change m.P * (1 / _) / (_ * m.T) * _ / _ = _
    ring
  rw [hf]
  refine hi.congr_deriv ?_
  have hj' : (if k = j then m.density / m.weight j else 0) = (if k = j then 1 else 0) * (m.density / m.weight k) := by
    split <;> simp_all
  have hl : (if k = m.count - 1 then -(m.density / m.weight (m.count - 1)) else 0) =
      (if k = m.count - 1 then -1 else 0) * (m.density / m.weight k) := by
    split <;> simp_all
  rw [hj', hl]
  simp only [withFraction_self, concentration, density, meanWeight]
  ring

/-- The slope by the mass fraction of species `j` of what falls by `s` with all concentrations together
and rises by `x` and `y` with those of `j` and of the last species. -/
def fractionSlope (m : Mixture) (j : ℕ) (s x y : ℝ) : ℝ :=
  -(m.meanWeight * (1 / m.weight j - 1 / m.weight (m.count - 1))) * s + m.density / m.weight j * x
    + -(m.density / m.weight (m.count - 1)) * y

end Mixture

end

end Kinetics
