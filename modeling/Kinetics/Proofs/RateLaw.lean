import Kinetics.Proofs.Thermochemistry
/-!
# Rate laws and the temperature

The laws that emitted code approximates: Arrhenius rate constants, products of powers of
concentrations, equilibrium constants, third bodies and falloff between two limits. At
fixed pressure and composition every one of them changes with the temperature in
proportion to itself, so a law is described by its relative change, `SlopeAt`, and the
change of a product is the sum of the changes of its factors.
-/

open List

namespace Kinetics

noncomputable section

open Rate

/-! ## Relative changes -/

/-- At `T`, the function changes by the share `s` of itself for each share of the temperature. -/
def SlopeAt (f : ℝ → ℝ) (s T : ℝ) : Prop := HasDerivAt f (f T * s / T) T

namespace SlopeAt

variable {f g : ℝ → ℝ} {s t T : ℝ}

lemma const (c T : ℝ) : SlopeAt (fun _ => c) 0 T := by
  simpa [SlopeAt] using hasDerivAt_const T c

lemma mul (hf : SlopeAt f s T) (hg : SlopeAt g t T) : SlopeAt (fun x => f x * g x) (s + t) T :=
  (HasDerivAt.mul hf hg).congr_deriv (by ring)

lemma const_mul (c : ℝ) (hf : SlopeAt f s T) : SlopeAt (fun x => c * f x) s T :=
  (HasDerivAt.const_mul c hf).congr_deriv (by ring)

lemma inv (hf : SlopeAt f s T) (h : f T ≠ 0) : SlopeAt (fun x => (f x)⁻¹) (-s) T := by
  refine (HasDerivAt.fun_inv hf h).congr_deriv ?_
  field_simp

lemma add (hf : SlopeAt f s T) (hg : SlopeAt g s T) : SlopeAt (fun x => f x + g x) s T :=
  (HasDerivAt.add hf hg).congr_deriv (by ring)

lemma exp (h : HasDerivAt f (s / T) T) : SlopeAt (fun x => Real.exp (f x)) s T := h.exp.congr_deriv (by ring)

lemma rpow (hf : SlopeAt f s T) (h : f T ≠ 0) (p : ℝ) : SlopeAt (fun x => f x ^ p) (p * s) T := by
  refine (HasDerivAt.rpow_const hf (.inl h)).congr_deriv ?_
  rw [Real.rpow_sub_one h]
  field_simp

lemma const_div (c : ℝ) (hT : T ≠ 0) : SlopeAt (fun x => c / x) (-1) T := by
  have h : HasDerivAt (fun x => c / x) (c * -(T ^ 2)⁻¹) T := by
    simpa only [div_eq_mul_inv] using (hasDerivAt_inv hT).const_mul c
  refine h.congr_deriv ?_
  field_simp

end SlopeAt

/-! ## Rate constants -/

def arrheniusLaw (A b E : Exact) (T : ℝ) : ℝ := A.toReal * T ^ b.toReal * Real.exp (-(E.toReal / T))

lemma slopeAt_activation (x : ℝ) {T : ℝ} (hT : T ≠ 0) : SlopeAt (fun T => Real.exp (-(x / T))) (x / T) T := by
  refine SlopeAt.exp ?_
  refine (HasDerivAt.neg (SlopeAt.const_div x hT)).congr_deriv ?_
  ring

lemma slopeAt_arrheniusLaw (A b E : Exact) {T : ℝ} (hT : 0 < T) :
    SlopeAt (arrheniusLaw A b E) (b.toReal + E.toReal / T) T := by
  have hid : SlopeAt (fun T => T) 1 T := (hasDerivAt_id' T).congr_deriv (by field_simp)
  have hp := (hid.rpow hT.ne' b.toReal).const_mul A.toReal
  rw [mul_one] at hp
  exact hp.mul (slopeAt_activation E.toReal hT.ne')

/-- The inverse of a rate constant; a rate constant without factor is zero throughout. -/
lemma slopeAt_inv_arrheniusLaw (A b E : Exact) {T : ℝ} (hT : 0 < T) :
    SlopeAt (fun T => (arrheniusLaw A b E T)⁻¹) (-(b.toReal + E.toReal / T)) T := by
  by_cases hA : A.toReal = 0
  · have hz : (fun T => (arrheniusLaw A b E T)⁻¹) = fun _ => 0 := by
      funext x
      simp [arrheniusLaw, hA]
    rw [hz, SlopeAt, zero_mul, zero_div]
    exact hasDerivAt_const T 0
  · refine (slopeAt_arrheniusLaw A b E hT).inv ?_
    exact mul_ne_zero (mul_ne_zero hA (Real.rpow_pos_of_pos hT _).ne') (Real.exp_ne_zero _)

lemma arrheniusLaw_div (a A b B e E : Exact) {T : ℝ} (hT : 0 < T) :
    arrheniusLaw (.measure (a.toReal / A.toReal)) (b - B) (e - E) T = arrheniusLaw a b e T / arrheniusLaw A B E T := by
  have he : Real.exp (-((e.toReal - E.toReal) / T)) = Real.exp (-(e.toReal / T)) / Real.exp (-(E.toReal / T)) := by
    rw [← Real.exp_sub]
    congr 1
    ring
  unfold arrheniusLaw
  rw [Exact.toReal_measure, Exact.toReal_sub, Exact.toReal_sub, Real.rpow_sub hT, he, mul_div_mul_comm,
    mul_div_mul_comm]

/-- A negative power of the temperature is not written as repeated factors. -/
def Proper (A b E : Exact) : Prop := repeatsTemperature A b E → 0 ≤ b.toReal

variable {A b E : Exact}

lemma whole_of_repeats (h : repeatsTemperature A b E) : ∃ n : ℤ, b.toReal = n := by
  have hk := h.2.2
  split at hk
  · exact Exact.exists_of_isWhole (Exact.isWhole_of_isCount hk)
  · exact Exact.exists_of_isWhole hk

/-- The emitted rate constant is the Arrhenius law where no negative power is written as repeated
factors: of those there are none. -/
lemma rateConstant_eq_arrheniusLaw (h : Proper A b E) {T : ℝ} (hT : 0 < T) :
    rateConstant A b E T (Real.log T) = arrheniusLaw A b E T := by
  unfold rateConstant arrheniusLaw
  by_cases hr : repeatsTemperature A b E
  · obtain ⟨n, hn⟩ := whole_of_repeats hr
    have hnn : 0 ≤ n := by
      have := h hr
      rw [hn] at this
      exact_mod_cast this
    lift n to ℕ using hnn
    rw [if_pos hr, Exact.wholePart_of_eq hn, hr.1, hn]
    simp
  · rw [if_neg hr, Real.rpow_def_of_pos hT, mul_assoc, ← Real.exp_add, mul_comm (Real.log T), sub_eq_add_neg]

lemma rateConstant_of_not_proper (h : ¬Proper A b E) (T logT : ℝ) : rateConstant A b E T logT = A.toReal := by
  obtain ⟨hr, hb⟩ := Classical.not_imp.1 h
  obtain ⟨n, hn⟩ := whole_of_repeats hr
  have hn' : n ≤ 0 := by exact_mod_cast hn ▸ (not_le.1 hb).le
  rw [rateConstant, if_pos hr, Exact.wholePart_of_eq hn, Int.toNat_of_nonpos hn', pow_zero, mul_one]

open Classical in
/-- Every factor other than zero has an expression. It means the Arrhenius law, unless a negative power is to be
written as repeated factors: then the factor stands alone, and the law does not hold at all temperatures. -/
theorem arrhenius_expression {A : Exact} (hA : A.toReal ≠ 0) (b E : Exact) : ∃ e, arrhenius A b E = .ok e ∧
    (∀ σ : Code.Memory, 0 < σ.var "T" → σ.var "logT" = Real.log (σ.var "T") →
      e.value σ = some (if Proper A b E then arrheniusLaw A b E (σ.var "T") else A.toReal)) ∧
    ((∀ σ : Code.Memory, 0 < σ.var "T" → σ.var "logT" = Real.log (σ.var "T") →
      e.value σ = some (arrheniusLaw A b E (σ.var "T"))) ↔ Proper A b E) := by
  obtain ⟨e, he, hv⟩ := arrhenius_ok hA b E
  have hval : ∀ σ : Code.Memory, 0 < σ.var "T" → σ.var "logT" = Real.log (σ.var "T") →
      e.value σ = some (if Proper A b E then arrheniusLaw A b E (σ.var "T") else A.toReal) := by
    intro σ hT hl
    rw [(hv σ).value, hl]
    split
    · next hp => rw [rateConstant_eq_arrheniusLaw hp hT]
    · next hp => rw [rateConstant_of_not_proper hp]
  refine ⟨e, he, hval, fun h => ?_, fun hp σ hT hl => by rw [hval σ hT hl, if_pos hp]⟩
  by_contra hp
  -- at the temperature two the power is less than one
  obtain ⟨⟨hE, -, -⟩, hb⟩ := Classical.not_imp.1 hp
  let σ : Code.Memory := fun p => if p = .cell "T" none then 2 else Real.log 2
  have hlaw := (h σ two_pos rfl).symm.trans (hval σ two_pos rfl)
  rw [if_neg hp, Option.some_inj, arrheniusLaw, hE, zero_div, neg_zero, Real.exp_zero, mul_one] at hlaw
  have hone : (2 : ℝ) ^ b.toReal = 1 := mul_left_cancel₀ hA (hlaw.trans (mul_one _).symm)
  exact (Real.rpow_lt_one_of_one_lt_of_neg one_lt_two (not_le.1 hb)).ne hone

theorem arrhenius_expression_inverse : ∃ e, arrhenius (.count 2) (.count (-1)) (.count 0) = .ok e ∧
    ∀ σ : Code.Memory, 0 < σ.var "T" → σ.var "logT" = Real.log (σ.var "T") → e.value σ = some 2 := by
  obtain ⟨e, he, hval, -⟩ := arrhenius_expression (A := .count 2) (by simp) (.count (-1)) (.count 0)
  have hp : ¬Proper (.count 2) (.count (-1)) (.count 0) := fun h =>
    absurd (h ⟨by simp, by simp, by rw [if_pos (by simp)]; rfl⟩) (by norm_num)
  exact ⟨e, he, fun σ hT hl => by rw [hval σ hT hl, if_neg hp, Exact.toReal_count, Int.cast_ofNat]⟩

/-! ## Concentrations -/

namespace Mixture

variable (m : Mixture)

/-- The same gas at another temperature, with the same pressure. -/
def withTemperature (T : ℝ) : Mixture := { m with T := T }

@[simp] lemma withTemperature_T (T : ℝ) : (m.withTemperature T).T = T := rfl

@[simp] lemma withTemperature_species (T : ℝ) : (m.withTemperature T).species = m.species := rfl

@[simp] lemma withTemperature_self : m.withTemperature m.T = m := rfl

def total : ℝ := m.P / ((gasConstant : Exact).toReal * m.T)

lemma total_withTemperature (T : ℝ) : (m.withTemperature T).total = m.P / (gasConstant : Exact).toReal / T := by
  rw [div_div]
  rfl

lemma concentration_withTemperature (T : ℝ) (k : ℕ) : (m.withTemperature T).concentration k =
    m.P * m.meanWeight / (gasConstant : Exact).toReal * m.fraction k / m.weight k / T := by
  change m.P * m.meanWeight / ((gasConstant : Exact).toReal * T) * m.fraction k / m.weight k = _
  ring

lemma inv_density_withTemperature (T : ℝ) : 1 / (m.withTemperature T).density =
    (m.P * m.meanWeight / (gasConstant : Exact).toReal)⁻¹ * T := by
  change 1 / (m.P * m.meanWeight / ((gasConstant : Exact).toReal * T)) = _
  rw [one_div, ← div_div, inv_div, div_eq_inv_mul]

variable {m}

lemma slopeAt_total (hT : m.T ≠ 0) : SlopeAt (fun T => (m.withTemperature T).total) (-1) m.T := by
  simp only [total_withTemperature]
  exact SlopeAt.const_div _ hT

lemma slopeAt_concentration (hT : m.T ≠ 0) (k : ℕ) :
    SlopeAt (fun T => (m.withTemperature T).concentration k) (-1) m.T := by
  simp only [concentration_withTemperature]
  exact SlopeAt.const_div _ hT

lemma slopeAt_volume (hT : m.T ≠ 0) : SlopeAt (fun T => 1 / (m.withTemperature T).density) 1 m.T := by
  simp only [inv_density_withTemperature]
  refine ((hasDerivAt_id' m.T).const_mul _).congr_deriv ?_
  field_simp

end Mixture

def exponentSum (nu : List Exact) : ℝ := (nu.map Exact.toReal).sum

lemma slopeAt_power {m : Mixture} (hT : 0 < m.T) (k : ℕ) (p : ℝ) :
    SlopeAt (fun T => (m.withTemperature T).concentration k ^ p) (-p) m.T := by
  by_cases hc : m.concentration k = 0
  · -- a concentration that vanishes does so at all temperatures
    have hf : (fun T => (m.withTemperature T).concentration k ^ p) = fun _ => (0 : ℝ) ^ p := by
      funext T
      rw [m.concentration_withTemperature]
      have hz := m.concentration_withTemperature m.T k
      rw [m.withTemperature_self, hc, eq_comm, div_eq_zero_iff] at hz
      rw [hz.resolve_right hT.ne', zero_div]
    rw [hf]
    refine (hasDerivAt_const m.T _).congr_deriv ?_
    by_cases hp : p = 0
    · simp [hp]
    · rw [Real.zero_rpow hp]
      ring
  · have h := (Mixture.slopeAt_concentration hT.ne' k).rpow hc p
    rwa [mul_neg_one] at h

lemma slopeAt_powerProduct {m : Mixture} (hT : 0 < m.T) (side : List (ℕ × Exact)) :
    SlopeAt (fun T => powerProduct (m.withTemperature T).concentration side)
      (-(side.map fun t => t.2.toReal).sum) m.T := by
  induction side with
  | nil => simpa [powerProduct] using SlopeAt.const 1 m.T
  | cons t rest ih =>
    have h := (slopeAt_power hT t.1 t.2.toReal).mul ih
    rw [← neg_add] at h
    simpa only [powerProduct, map_cons, prod_cons, sum_cons] using h

lemma sum_zip_eq {sp : List ℕ} {nu : List Exact} (h : Side sp nu) :
    ((sp.zip nu).map fun t => t.2.toReal).sum = exponentSum nu := by
  have hs : (sp.zip nu).map Prod.snd = nu := map_snd_zip h.length_eq.le
  conv_rhs => rw [exponentSum, ← hs, map_map]
  rfl

/-! ## Equilibrium constants -/

/-- The derivative of the exponent of one mole, on one range. -/
def moleSlope (p : Nasa Exact) (T : ℝ) : ℝ := (p.a1.toReal - 1 + p.a6.toReal / T) / T + p.a2.toReal / (2 : ℕ)
    + T * (p.a3.toReal / (3 : ℕ) + T * (p.a4.toReal / (4 : ℕ) + p.a5.toReal / (5 : ℕ) * T))

open Classical in
/-- The derivative of the exponent of one mole of a species. -/
def speciesSlope (s : Species Exact) (T : ℝ) : ℝ := moleSlope (if T ≤ s.midpoint.toReal then s.low else s.high) T

lemma hasDerivAt_moleExponent (p : Nasa Exact) {T : ℝ} (hT : T ≠ 0) :
    HasDerivAt (fun T => moleExponent p T (Real.log T)) (moleSlope p T) T := by
  have hlg := (Real.hasDerivAt_log hT).const_mul (p.a1.toReal - 1)
  have hid := hasDerivAt_id' T
  have h₃ := (hid.const_mul (p.a5.toReal / 20)).const_add (p.a4.toReal / 12)
  have h₂ := (hid.mul h₃).const_add (p.a3.toReal / 6)
  have h₁ := (hid.mul h₂).const_add (p.a2.toReal / 2)
  have hl := SlopeAt.const_div p.a6.toReal hT
  have ha := ((hlg.const_add (p.a7.toReal - p.a1.toReal)).add (hid.mul h₁)).sub hl
  refine ha.congr_deriv ?_
  simp only [moleSlope, Pi.mul_apply]
  ring

lemma hasDerivAt_speciesExponent (s : Species Exact) {T : ℝ} (hT : T ≠ 0) (hm : T ≠ s.midpoint.toReal) :
    HasDerivAt (fun T => speciesExponent s T (Real.log T)) (speciesSlope s T) T := by
  rcases lt_or_gt_of_ne hm with h | h
  · rw [speciesSlope, if_pos h.le]
    refine (hasDerivAt_moleExponent s.low hT).congr_of_eventuallyEq ?_
    filter_upwards [eventually_lt_nhds h] with x hx
    rw [speciesExponent, if_pos hx.le]
  · rw [speciesSlope, if_neg h.not_ge]
    refine (hasDerivAt_moleExponent s.high hT).congr_of_eventuallyEq ?_
    filter_upwards [eventually_gt_nhds h] with x hx
    rw [speciesExponent, if_neg hx.not_ge]

/-- The equilibrium constant of a reaction among the species of a list. -/
def equilibriumLaw (species : List (Species Exact)) (r : Reaction ℕ Exact) (T : ℝ) : ℝ :=
  thermodynamicConstant r (fun s => gibbsAt (memberAt species s) T) T

/-- The derivative of the exponent of an equilibrium constant. -/
def equilibriumSlopeAt (species : List (Species Exact)) (r : Reaction ℕ Exact) (T : ℝ) : ℝ :=
  ((participants r).map fun s => (r.change s).toReal * speciesSlope (memberAt species s) T).sum

section Equilibrium
variable {sp : List (Species Exact)} {r : Reaction ℕ Exact} {T : ℝ}

lemma hasDerivAt_reactionExponent (hT : T ≠ 0) (hm : ∀ s ∈ participants r, T ≠ (memberAt sp s).midpoint.toReal) :
    HasDerivAt (fun T => reactionExponent (memberAt sp) r T (Real.log T)) (equilibriumSlopeAt sp r T) T := by
  unfold reactionExponent equilibriumSlopeAt
  generalize participants r = xs at hm
  induction xs with
  | nil => simpa using hasDerivAt_const T (0 : ℝ)
  | cons s xs ih =>
    have hs := hasDerivAt_speciesExponent _ hT (hm s mem_cons_self)
    exact (hs.const_mul _).add (ih fun t ht => hm t (mem_cons_of_mem _ ht))

lemma equilibriumLaw_pos (sp : List (Species Exact)) (r : Reaction ℕ Exact) (hT : 0 < T) :
    0 < equilibriumLaw sp r T :=
  mul_pos (Real.rpow_pos_of_pos (div_pos Exact.atmosphere_pos (mul_pos Exact.gasConstant_pos hT)) _) (Real.exp_pos _)

lemma slopeAt_equilibriumLaw (hT : 0 < T) (hm : ∀ s ∈ participants r, T ≠ (memberAt sp s).midpoint.toReal) :
    SlopeAt (equilibriumLaw sp r) (T * equilibriumSlopeAt sp r T) T := by
  have he : HasDerivAt (fun T => reactionExponent (memberAt sp) r T (Real.log T))
      (T * equilibriumSlopeAt sp r T / T) T :=
    (hasDerivAt_reactionExponent hT.ne' hm).congr_deriv (by field_simp)
  have hl := (SlopeAt.exp he).const_mul (((atmosphere : Exact).toReal / (gasConstant : Exact).toReal) ^ moleChange r)
  have hv : equilibriumLaw sp r T = _ := thermodynamicConstant_eq (memberAt sp) r hT
  rw [SlopeAt, hv]
  refine HasDerivAt.congr_of_eventuallyEq hl ?_
  filter_upwards [eventually_gt_nhds hT] with x hx
  exact thermodynamicConstant_eq (memberAt sp) r hx

lemma equilibriumLaw_balanced (h : Balanced r) (T : ℝ) : equilibriumLaw sp r T = 1 := by
  have hz : ∀ g : ℕ → ℝ, ((participants r).map fun s => (r.change s).toReal * g s).sum = 0 := by
    intro g
    refine sum_eq_zero fun x hx => ?_
    obtain ⟨s, hs, rfl⟩ := mem_map.1 hx
    rw [h s hs, zero_mul]
  have hm : moleChange r = 0 := by simpa [moleChange] using hz fun _ => 1
  rw [equilibriumLaw, thermodynamicConstant, hz, hm, Real.rpow_zero, Real.exp_zero, mul_one]

lemma slopeAt_equilibriumLaw_balanced (h : Balanced r) : SlopeAt (equilibriumLaw sp r) 0 T := by
  rw [show equilibriumLaw sp r = fun _ => 1 from funext fun T => equilibriumLaw_balanced h T]
  exact SlopeAt.const 1 T

end Equilibrium

/-! ## Rates -/

section Rates
variable (r : Reaction ℕ Exact) (m : Mixture)

def forwardConstantLaw (T : ℝ) : ℝ := arrheniusLaw r.A r.b r.E T

/-- The rate constant of the reverse direction: given, or from the equilibrium constant. -/
def reverseConstantLaw (species : List (Species Exact)) (T : ℝ) : ℝ := match r.reverse with
  | a :: b :: e :: _ => arrheniusLaw a b e T
  | _ => forwardConstantLaw r T / equilibriumLaw species r T

def forwardLaw : ℝ := forwardConstantLaw r m.T * powerProduct m.concentration (r.reactants.zip r.reactantNu)

def reverseLaw : ℝ := if r.reversible then
    reverseConstantLaw r m.species m.T * powerProduct m.concentration (r.products.zip r.productNu)
  else 0

/-- The share by which the rate constant of the forward direction changes. -/
def forwardShare (T : ℝ) : ℝ := r.b.toReal + r.E.toReal / T

/-- The share by which a given rate constant of the reverse direction changes, or the one that takes
its place. -/
def reverseShare (T : ℝ) : ℝ := match r.reverse with
  | _ :: b :: e :: _ => b.toReal + e.toReal / T
  | _ => forwardShare r T

variable {r m}

lemma slopeAt_forwardLaw (hT : 0 < m.T) (h : Side r.reactants r.reactantNu) :
    SlopeAt (fun T => forwardLaw r (m.withTemperature T)) (forwardShare r m.T - exponentSum r.reactantNu) m.T := by
  have hp := slopeAt_powerProduct hT (r.reactants.zip r.reactantNu)
  rw [sum_zip_eq h] at hp
  exact (slopeAt_arrheniusLaw r.A r.b r.E hT).mul hp

lemma slopeAt_reverseLaw {s : ℝ} (hT : 0 < m.T) (h : Side r.products r.productNu)
    (hc : r.reversible = true → SlopeAt (reverseConstantLaw r m.species) s m.T) :
    SlopeAt (fun T => reverseLaw r (m.withTemperature T)) (s - exponentSum r.productNu) m.T := by
  cases hr : r.reversible
  · simp only [reverseLaw, hr, Bool.false_eq_true, if_false, SlopeAt, zero_mul, zero_div]
    exact hasDerivAt_const m.T 0
  · have hp := slopeAt_powerProduct hT (r.products.zip r.productNu)
    rw [sum_zip_eq h] at hp
    simp only [reverseLaw, hr]
    exact (hc hr).mul hp

variable {sp : List (Species Exact)}

lemma slopeAt_reverseConstantLaw_equilibrium {s T : ℝ} (hT : 0 < T)
    (hr : r.reverse = []) (hK : SlopeAt (equilibriumLaw sp r) s T) :
    SlopeAt (reverseConstantLaw r sp) (forwardShare r T - s) T := by
  have hq := (slopeAt_arrheniusLaw r.A r.b r.E hT).mul (hK.inv (equilibriumLaw_pos sp r hT).ne')
  have hf : reverseConstantLaw r sp = fun T => arrheniusLaw r.A r.b r.E T * (equilibriumLaw sp r T)⁻¹ := by
    funext x
    rw [reverseConstantLaw, hr]
    exact div_eq_mul_inv _ _
  rw [hf]
  exact hq

lemma slopeAt_reverseConstantLaw_given {a b e : Exact}
    {rest : List Exact} {T : ℝ} (hT : 0 < T) (hr : r.reverse = a :: b :: e :: rest) :
    SlopeAt (reverseConstantLaw r sp) (b.toReal + e.toReal / T) T := by
  have hf : reverseConstantLaw r sp = arrheniusLaw a b e := by
    funext x
    rw [reverseConstantLaw, hr]
  rw [hf]
  exact slopeAt_arrheniusLaw a b e hT

end Rates

/-! ## Pressure modifications -/

section Modification
variable (r : Reaction ℕ Exact) (m : Mixture)

/-- The concentration of the molecules that take part in a collision. -/
def colliders : ℝ := colliderConcentration r m.total m.concentration

/-- A limit of a falloff reaction: given, or the rate constant of the reaction itself. -/
def limitLaw (given : List Exact) (T : ℝ) : ℝ := match given with
  | a :: b :: e :: _ => arrheniusLaw a b e T
  | _ => forwardConstantLaw r T

def pressureLaw : ℝ := limitLaw r r.low m.T / limitLaw r r.high m.T * colliders r m

/-- The factor of a rate that depends on the pressure: the colliders of a third-body reaction, the
place between the limits of a falloff reaction without broadening. -/
def modificationLaw : ℝ := if r.falloff then
    if r.low = [] then 1 / (1 + pressureLaw r m) else pressureLaw r m / (1 + pressureLaw r m)
  else if r.thirdBody then thirdBodies m.total m.concentration r.efficiencies
  else 1

def progressLaw : ℝ := modificationLaw r m * (forwardLaw r m - reverseLaw r m)

def limitShareAt (given : List Exact) (T : ℝ) : ℝ := match given with
  | _ :: b :: e :: _ => b.toReal + e.toReal / T
  | _ => forwardShare r T

def pressureShare (T : ℝ) : ℝ := limitShareAt r r.low T - limitShareAt r r.high T - 1

def modificationShare : ℝ := if r.falloff then
    if r.low = [] then -(pressureLaw r m * pressureShare r m.T) / (1 + pressureLaw r m)
    else pressureShare r m.T / (1 + pressureLaw r m)
  else if r.thirdBody then -1
  else 0

variable {r m}

lemma slopeAt_thirdBodies (hT : m.T ≠ 0) (efficiencies : List (ℕ × Exact)) :
    SlopeAt (fun T => thirdBodies (m.withTemperature T).total (m.withTemperature T).concentration efficiencies)
      (-1) m.T := by
  refine (Mixture.slopeAt_total hT).add ?_
  induction efficiencies with
  | nil =>
    refine (hasDerivAt_const m.T (0 : ℝ)).congr_deriv ?_
    simp
  | cons t rest ih =>
    exact ((Mixture.slopeAt_concentration hT t.1).const_mul _).add ih

lemma slopeAt_colliders (hT : m.T ≠ 0) : SlopeAt (fun T => colliders r (m.withTemperature T)) (-1) m.T := by
  unfold colliders colliderConcentration
  cases r.collider with
  | some s => exact Mixture.slopeAt_concentration hT s
  | none => exact slopeAt_thirdBodies hT r.efficiencies

lemma slopeAt_limitLaw (given : List Exact) {T : ℝ} (hT : 0 < T) :
    SlopeAt (limitLaw r given) (limitShareAt r given T) T ∧
      SlopeAt (fun T => (limitLaw r given T)⁻¹) (-limitShareAt r given T) T := by
  unfold limitLaw limitShareAt
  split
  · exact ⟨slopeAt_arrheniusLaw _ _ _ hT, slopeAt_inv_arrheniusLaw _ _ _ hT⟩
  · exact ⟨slopeAt_arrheniusLaw _ _ _ hT, slopeAt_inv_arrheniusLaw _ _ _ hT⟩

lemma slopeAt_pressureLaw (hT : 0 < m.T) :
    SlopeAt (fun T => pressureLaw r (m.withTemperature T)) (pressureShare r m.T) m.T :=
  ((slopeAt_limitLaw r.low hT).1.mul (slopeAt_limitLaw r.high hT).2).mul (slopeAt_colliders hT.ne')

lemma slopeAt_modificationLaw (hT : 0 < m.T) (hp : r.falloff = true → 1 + pressureLaw r m ≠ 0) :
    SlopeAt (fun T => modificationLaw r (m.withTemperature T)) (modificationShare r m) m.T := by
  unfold modificationLaw modificationShare
  cases hf : r.falloff
  · cases r.thirdBody
    · exact SlopeAt.const 1 m.T
    · exact slopeAt_thirdBodies hT.ne' r.efficiencies
  · have hne := hp hf
    have hP : HasDerivAt (fun T => pressureLaw r (m.withTemperature T)) _ m.T := slopeAt_pressureLaw hT
    have hs := hP.const_add 1
    simp only [if_true]
    by_cases hl : r.low = []
    · simp only [hl, if_true]
      refine ((hasDerivAt_const m.T (1 : ℝ)).fun_div hs hne).congr_deriv ?_
      simp only [Mixture.withTemperature_self]
      field_simp
      ring
    · simp only [hl, if_false]
      refine (hP.fun_div hs hne).congr_deriv ?_
      simp only [Mixture.withTemperature_self]
      field_simp
      ring

end Modification

/-- The temperature derivative of a rate of progress over the density, from the shares by which its
factors change. -/
lemma hasDerivAt_progressLaw {r : Reaction ℕ Exact} {m : Mixture} {q f g : ℝ} (hT : 0 < m.T)
    (hq : SlopeAt (fun T => modificationLaw r (m.withTemperature T)) q m.T)
    (hf : SlopeAt (fun T => forwardLaw r (m.withTemperature T)) f m.T)
    (hg : SlopeAt (fun T => reverseLaw r (m.withTemperature T)) g m.T) :
    HasDerivAt (fun T => progressLaw r (m.withTemperature T) / (m.withTemperature T).density)
      (modificationLaw r m / m.density * (forwardLaw r m * (q + f + 1) - reverseLaw r m * (q + g + 1)) / m.T) m.T := by
  have hn := HasDerivAt.sub hf hg
  have ha := (HasDerivAt.mul hq hn).mul (Mixture.slopeAt_volume hT.ne')
  simp only [div_eq_mul_one_div (progressLaw r _)]
  refine ha.congr_deriv ?_
  simp only [Mixture.withTemperature_self, Pi.mul_apply, Pi.sub_apply]
  ring

end

end Kinetics

/-! ## Slopes by a concentration -/

namespace Kinetics.Jacobian

open Code

/-- The expression stands for a rate constant times the derivative of the product by the
concentration of species `s`, wherever all concentrations are positive. -/
def IsSlope (constant : String) (side : List (ℕ × Exact)) (s : ℕ) (e : Expr Exact) : Prop :=
  ∀ σ : Memory, (∀ i : ℕ, 0 < σ.row "conc" i) → ∃ v, e.value σ = some v ∧
    HasDerivAt (fun y => σ.var constant * powerProduct (Function.update (σ.row "conc") s y) side) v (σ.row "conc" s)

end Kinetics.Jacobian
