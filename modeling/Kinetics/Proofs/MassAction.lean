import Kinetics.Emit.ReactionRates
import Kinetics.Jacobian.Species
import Kinetics.Proofs.Meaning
import Kinetics.Proofs.Stoichiometry
/-!
# Mass action

Rates are products of concentrations. `monomial` is such a product and `slope` its
derivative by one concentration. The emitted products and the emitted slopes have
these values, and along any path of the concentrations the chain rule puts the
slopes together.
-/

open List

namespace Kinetics

noncomputable section

/-! ## One side of an equation -/

/-- The number of times a concentration with a whole coefficient is a factor. -/
def order (x : Exact) : ℕ := (Arithmetic.wholePart x).toNat

/-- One side of an equation: every species once, with a positive whole coefficient. -/
structure WholeSide (species : List ℕ) (nu : List Exact) : Prop extends Side species nu where
  whole : ∀ x ∈ nu, ∃ m : ℕ, 0 < m ∧ x.toReal = m

lemma wholeSide_single {s m : ℕ} {x : Exact} (hm : 0 < m) (hx : x.toReal = m) : WholeSide [s] [x] :=
  ⟨⟨rfl, List.nodup_singleton s⟩, List.forall_mem_singleton.2 ⟨m, hm, hx⟩⟩

/-- One side of an equation: every species once, with a positive coefficient. -/
structure Jacobian.PositiveSide (species : List ℕ) (nu : List Exact) : Prop extends Side species nu where
  positive : ∀ x ∈ nu, 0 < x.toReal

variable {x : Exact}

lemma order_of_eq {m : ℕ} (h : x.toReal = m) : order x = m := by
  rw [order, Exact.wholePart_of_eq (n := m) (by simpa using h), Int.toNat_natCast]

def IsWhole (x : Exact) : Prop := 0 < order x ∧ x.toReal = order x

lemma isWhole_of_eq {m : ℕ} (hm : 0 < m) (h : x.toReal = m) : IsWhole x := by
  rw [IsWhole, order_of_eq h]
  exact ⟨hm, h⟩

variable {sp : List ℕ} {nu : List Exact} {t : ℕ × Exact}

lemma WholeSide.isWhole (h : WholeSide sp nu) (ht : t ∈ sp.zip nu) : IsWhole t.2 := by
  obtain ⟨m, hm, hx⟩ := h.whole _ (of_mem_zip ht).2
  exact isWhole_of_eq hm hx

lemma WholeSide.nodup_zip (h : WholeSide sp nu) : ((sp.zip nu).map (·.1)).Nodup := by
  rw [map_fst_zip h.length_eq.ge]
  exact h.nodup

/-! ## Products of concentrations -/

/-- The product of concentrations, each as often as its coefficient says. -/
def monomial (c : ℕ → ℝ) (side : List (ℕ × Exact)) : ℝ := (side.map fun t => c t.1 ^ order t.2).prod

/-- The derivative of the product by the concentration of species `s`. -/
def slope (c : ℕ → ℝ) (s : ℕ) : List (ℕ × Exact) → ℝ
  | [] => 0
  | t :: rest =>
    (if t.1 = s then order t.2 * c t.1 ^ (order t.2 - 1) * monomial c rest else 0) + c t.1 ^ order t.2 * slope c s rest

def totalOrder (side : List (ℕ × Exact)) : ℝ := (side.map fun t => (order t.2 : ℝ)).sum

lemma WholeSide.sum_eq (h : WholeSide sp nu) : (Arithmetic.sum nu).toReal = totalOrder (sp.zip nu) := by
  have hs : (sp.zip nu).map Prod.snd = nu := map_snd_zip h.length_eq.le
  rw [Exact.toReal_sum, totalOrder]
  conv_lhs => rw [← hs, map_map]
  congr 1
  exact map_congr_left fun t ht => (h.isWhole ht).2

lemma totalOrder_nonneg (side : List (ℕ × Exact)) : 0 ≤ totalOrder side := sum_nonneg fun x hx => by
    obtain ⟨t, -, rfl⟩ := mem_map.1 hx
    exact Nat.cast_nonneg _

lemma WholeSide.totalOrder_eq_zero (h : WholeSide sp nu) : totalOrder (sp.zip nu) = 0 ↔ sp = [] := by
  constructor
  · intro hzr
    cases hz : sp.zip nu with
    | nil =>
      have hl := congrArg List.length hz
      rw [length_zip, h.length_eq, min_self] at hl
      exact eq_nil_of_length_eq_zero hl
    | cons t rest =>
      have hp := (h.isWhole (hz ▸ mem_cons_self)).1
      have hr := totalOrder_nonneg rest
      rw [hz, totalOrder, map_cons, sum_cons] at hzr
      rw [totalOrder] at hr
      have : (0 : ℝ) < order t.2 := Nat.cast_pos.2 hp
      linarith
  · rintro rfl
    simp [totalOrder]

@[simp] lemma monomial_cons (c : ℕ → ℝ) (t : ℕ × Exact) (side : List (ℕ × Exact)) :
    monomial c (t :: side) = c t.1 ^ order t.2 * monomial c side := by
  simp [monomial]

variable {side : List (ℕ × Exact)}

lemma slope_congr {c c' : ℕ → ℝ} (s : ℕ) (h : ∀ t ∈ side, c t.1 = c' t.1) : slope c s side = slope c' s side := by
  induction side with
  | nil => rfl
  | cons t rest ih =>
    have hr := fun u hu => h u (mem_cons_of_mem _ hu)
    have hm : monomial c rest = monomial c' rest := by
      unfold monomial
      congr 1
      exact map_congr_left fun u hu => by rw [hr u hu]
    simp only [slope, ih hr, hm, h t mem_cons_self]

variable {s : ℕ}

lemma slope_of_not_mem (c : ℕ → ℝ) (h : s ∉ side.map (·.1)) : slope c s side = 0 := by
  induction side with
  | nil => rfl
  | cons t rest ih =>
    simp only [map_cons, mem_cons, not_or] at h
    simp [slope, Ne.symm h.1, ih h.2]

def others (c : ℕ → ℝ) (s : ℕ) (side : List (ℕ × Exact)) : ℝ :=
  (side.map fun t => if t.1 = s then 1 else c t.1 ^ order t.2).prod

lemma others_of_not_mem (c : ℕ → ℝ) (h : s ∉ side.map (·.1)) : others c s side = monomial c side := by
  unfold others monomial
  congr 1
  refine map_congr_left fun t ht => ?_
  rw [if_neg]
  rintro rfl
  exact h (mem_map_of_mem ht)

lemma slope_of_mem (c : ℕ → ℝ) (hn : (side.map (·.1)).Nodup)
    (ht : t ∈ side) : slope c t.1 side = order t.2 * c t.1 ^ (order t.2 - 1) * others c t.1 side := by
  induction side with
  | nil => cases ht
  | cons u rest ih =>
    rw [map_cons, nodup_cons] at hn
    rcases mem_cons.1 ht with rfl | ht
    · simp [slope, slope_of_not_mem c hn.1, others, ← others_of_not_mem c hn.1]
    · have hne : u.1 ≠ t.1 := fun he => hn.1 (he ▸ mem_map_of_mem ht)
      simp only [slope, hne, if_false, ih hn.2 ht, others, map_cons, prod_cons]
      ring

/-- The chain rule for a product of concentrations that shrink in proportion, while
species `j` and `l` change on their own as well. -/
lemma hasDerivAt_monomial {c : ℝ → ℕ → ℝ} {x a u v : ℝ} {j l : ℕ} (side : List (ℕ × Exact))
    (h : ∀ t ∈ side, HasDerivAt (fun y => c y t.1)
      (-a * c x t.1 + (if t.1 = j then u else 0) + (if t.1 = l then v else 0)) x) :
    HasDerivAt (fun y => monomial (c y) side)
      (-a * totalOrder side * monomial (c x) side + u * slope (c x) j side + v * slope (c x) l side)
      x := by
  induction side with
  | nil => simpa [monomial, totalOrder, slope] using hasDerivAt_const x (1 : ℝ)
  | cons t rest ih =>
    have hr := ih fun t' ht' => h t' (mem_cons_of_mem _ ht')
    have hp := (h t mem_cons_self).fun_pow (order t.2)
    have hs := hp.mul hr
    have hsz : (order t.2 : ℝ) * c x t.1 ^ (order t.2 - 1) * c x t.1 = order t.2 * c x t.1 ^ order t.2 := by
      rcases Nat.eq_zero_or_pos (order t.2) with h0 | h0
      · simp [h0]
      · rw [mul_assoc, ← pow_succ, Nat.sub_add_cancel h0]
    have hf : (fun y => monomial (c y) (t :: rest)) = fun y => c y t.1 ^ order t.2 * monomial (c y) rest := by
      funext y
      rw [monomial_cons]
    refine hs.congr_deriv ?_
    simp only [slope, totalOrder, map_cons, sum_cons, monomial_cons]
    have indicator : ∀ (p : Prop) [Decidable p] (z : ℝ), (if p then z else 0) = (if p then 1 else 0) * z :=
      fun p _ z => by split <;> simp
    rw [indicator (t.1 = j), indicator (t.1 = l), indicator (t.1 = j) (_ * _), indicator (t.1 = l) (_ * _)]
    linear_combination (-a * monomial (c x) rest) * hsz

def powerProduct (c : ℕ → ℝ) (side : List (ℕ × Exact)) : ℝ := (side.map fun t => c t.1 ^ t.2.toReal).prod

/-- The same without the concentration of one species. -/
def otherPowers (c : ℕ → ℝ) (s : ℕ) (side : List (ℕ × Exact)) : ℝ :=
  (side.map fun t => if t.1 = s then 1 else c t.1 ^ t.2.toReal).prod

lemma IsWhole.nonneg (h : IsWhole x) : 0 ≤ x.toReal := h.2 ▸ Nat.cast_nonneg _

lemma IsWhole.rpow_eq (h : IsWhole x) (y : ℝ) : y ^ x.toReal = y ^ order x := by rw [h.2, Real.rpow_natCast]

lemma powerProduct_eq (c : ℕ → ℝ) (hw : ∀ t ∈ side, IsWhole t.2) : powerProduct c side = monomial c side :=
  congrArg List.prod (map_congr_left fun t ht => (hw t ht).rpow_eq _)

lemma otherPowers_eq (c : ℕ → ℝ) (s : ℕ) (hw : ∀ t ∈ side, IsWhole t.2) : otherPowers c s side = others c s side :=
  congrArg List.prod (map_congr_left fun t ht => by rw [(hw t ht).rpow_eq])

/-! ## Emitted products -/

section Products
variable {σ : Code.Memory} {e : Code.Expr Exact} {v : ℝ}

open Code

lemma pow_order (hx : 0 ≤ x.toReal) (h : Arithmetic.isWhole x = true) (y : ℝ) : y ^ order x = y ^ x.toReal := by
  obtain ⟨n, hn⟩ := Exact.exists_of_isWhole h
  have hz : 0 ≤ n := by rwa [hn, Int.cast_nonneg_iff] at hx
  rw [hn, order, Exact.wholePart_of_eq hn, ← Real.rpow_natCast, ← Int.cast_natCast, Int.toNat_of_nonneg hz]

lemma term_foldl_mul {w : ℝ} {f : Expr Exact} (he : Term σ e v) (hf : Term σ f w) (n : ℕ) :
    Term σ ((List.replicate n f).foldl (· * ·) e) (v * w ^ n) := by
  induction n generalizing e v with
  | zero => simpa using he
  | succ n ih =>
    rw [replicate_succ, foldl_cons, pow_succ', ← mul_assoc]
    exact ih (he.mul hf)

@[simp] lemma startsSigned_mul (a b : Expr Exact) : (a * b).startsSigned = a.startsSigned := rfl

lemma startsSigned_foldl_mul (fs : List (Expr Exact)) (a : Expr Exact) :
    (fs.foldl (· * ·) a).startsSigned = a.startsSigned := by
  induction fs generalizing a with
  | nil => rfl
  | cons f fs ih => rw [foldl_cons, ih, startsSigned_mul]

lemma timesPower_term (he : Term σ e v) (s : ℕ) (hx : 0 ≤ x.toReal) :
    Term σ (Jacobian.timesPower e s x) (v * σ.row "conc" s ^ x.toReal) := by
  unfold Jacobian.timesPower
  split
  · next h =>
    rw [← pow_order hx h]
    exact term_foldl_mul he (Factor.cell "conc" s).term _
  · exact he.mul (Factor.pow (Factor.cell "conc" s).value (Factor.plain x).value).term

@[simp] lemma startsSigned_timesPower (e : Expr Exact) (s : ℕ) (x : Exact) :
    (Jacobian.timesPower e s x).startsSigned = e.startsSigned := by
  unfold Jacobian.timesPower
  split
  · exact startsSigned_foldl_mul _ e
  · rfl

/-- A rate constant times a concentration for each reactant but one. -/
lemma foldl_timesPower_term (hw : ∀ t ∈ side, 0 ≤ t.2.toReal) (s : ℕ) (he : Term σ e v) (hs : e.startsSigned = false) :
    let product := side.foldl (fun p t => if t.1 = s then p else Jacobian.timesPower p t.1 t.2) e
    Term σ product (v * otherPowers (σ.row "conc") s side) ∧ product.startsSigned = false := by
  induction side generalizing e v with
  | nil => simpa [otherPowers] using ⟨he, hs⟩
  | cons t rest ih =>
    have hr := fun u hu => hw u (mem_cons_of_mem _ hu)
    by_cases h : t.1 = s
    · simpa [h, otherPowers] using ih hr he hs
    · have ht := timesPower_term he t.1 (hw t mem_cons_self)
      simpa [h, otherPowers, mul_assoc] using ih hr ht (by simpa using hs)

lemma powerSlope_term (constant : String) (s : ℕ) (x : Exact) : Term σ (Jacobian.powerSlope constant s x)
    (σ.var constant * (x.toReal * σ.row "conc" s ^ max (x.toReal - 1) 0)) := by
  have hb : (x - Arithmetic.one).toReal = x.toReal - 1 := by rw [Exact.toReal_sub, Exact.toReal_one]
  have hs : Term σ (if Arithmetic.eq x Arithmetic.one then .var constant
      else .var constant * .plain (Arithmetic.pointed x)) (σ.var constant * x.toReal) := by
    split
    · next h =>
      rw [Exact.eq_iff, Exact.toReal_one] at h
      rw [h, mul_one]
      exact (Factor.var constant).term
    · exact (Factor.var constant).term.mul (Factor.plain _).term
  rw [← mul_assoc]
  unfold Jacobian.powerSlope
  dsimp only
  split
  · next h =>
    rw [Exact.isPositive_iff, hb] at h
    rw [max_eq_left h.le, ← hb]
    exact timesPower_term hs s (hb ▸ h.le)
  · next h =>
    rw [Exact.isPositive_iff, hb, not_lt] at h
    rw [max_eq_right h, Real.rpow_zero, mul_one]
    exact hs

lemma startsSigned_powerSlope (constant : String) (s : ℕ) (x : Exact) :
    (Jacobian.powerSlope constant s x).startsSigned = false := by
  unfold Jacobian.powerSlope
  dsimp only
  split
  · rw [startsSigned_timesPower]
    split <;> rfl
  · split <;> rfl

/-- The slope by a concentration. A power below zero is left out. -/
lemma concentrationSlope_power (hsd : Side sp nu) (hw : ∀ t ∈ sp.zip nu, 0 ≤ t.2.toReal) (ht : t ∈ sp.zip nu)
    (constant : String) : ∃ e, Jacobian.concentrationSlope constant sp nu t.1 = .ok e ∧ e.startsSigned = false ∧
      ∀ σ, Term σ e (σ.var constant * (t.2.toReal * σ.row "conc" t.1 ^ max (t.2.toReal - 1) 0 *
        otherPowers (σ.row "conc") t.1 (sp.zip nu))) := by
  have reading := fun σ => foldl_timesPower_term hw t.1 (powerSlope_term (σ := σ) constant t.1 t.2)
    (startsSigned_powerSlope constant t.1 t.2)
  refine ⟨_, ?_, (reading 0).2, fun σ => ?_⟩
  · rw [Jacobian.concentrationSlope, coefficient_of_mem hsd.nodup ht]
    refine foldlM_eq_ok (forall₂_zipIdx hsd.length_eq) (fun product p t ⟨hp, ht⟩ => ?_) _
    simp only [hp, entryAt_eq_ok.2 ht, ok_bind, pure_ok]
    split <;> rfl
  · rw [← mul_assoc]
    exact (reading σ).1

/-- For whole coefficients the emitted slope is the rate constant times the derivative of the product. -/
lemma concentrationSlope_ok (hsd : WholeSide sp nu) (hs : s ∈ sp) (constant : String) :
    ∃ e, Jacobian.concentrationSlope constant sp nu s = .ok e ∧ e.startsSigned = false ∧
      ∀ σ, Term σ e (σ.var constant * slope (σ.row "conc") s (sp.zip nu)) := by
  rw [← map_fst_zip hsd.length_eq.ge] at hs
  obtain ⟨t, ht, rfl⟩ := mem_map.1 hs
  obtain ⟨e, he, hsg, hv⟩ := concentrationSlope_power hsd.toSide (fun u hu => (hsd.isWhole hu).nonneg) ht constant
  have hx := hsd.isWhole ht
  refine ⟨e, he, hsg, fun σ => ?_⟩
  have hm : max (t.2.toReal - 1) 0 = ((order t.2 - 1 : ℕ) : ℝ) := by
    rw [hx.2, Nat.cast_sub hx.1, Nat.cast_one, max_eq_left (sub_nonneg.2 (Nat.one_le_cast.2 hx.1))]
  have hσ := hv σ
  rw [hm, Real.rpow_natCast, hx.2, otherPowers_eq _ _ fun u hu => hsd.isWhole hu] at hσ
  rwa [slope_of_mem _ hsd.nodup_zip ht]

variable {vs : List ℝ}

lemma foldl_times_term {rest : List (Expr Exact × Gap)}
    (h : List.Forall₂ (fun f w => Term σ f.1 w) rest vs) {p : Expr Exact × Gap} (hp : Term σ p.1 v) :
    Term σ (rest.foldl (fun (p, g) (f, h) => (Expr.binary .times g p f, h)) p).1 (v * vs.prod) := by
  induction h generalizing p v with
  | nil => simpa using hp
  | cons hf _ ih =>
    rw [foldl_cons, prod_cons, ← mul_assoc]
    exact ih (hp.times hf)

lemma productOf_term {fs : List (Expr Exact × Gap)}
    (h : List.Forall₂ (fun f w => Term σ f.1 w) fs vs) (he : Term σ e v) :
    Term σ (Emit.productOf fs e) (vs.prod * v) := by
  cases h with
  | nil => simpa [Emit.productOf] using he
  | cons hf hr =>
    exact (foldl_times_term hr hf).times he

lemma concentrationFactors_terms (gap : Gap) (hw : ∀ t ∈ side, 0 ≤ t.2.toReal) :
    ∃ vs, List.Forall₂ (fun f w => Term σ f.1 w) (side.map fun t => Emit.concentrationFactors gap t.1 t.2).flatten vs ∧
      vs.prod = powerProduct (σ.row "C") side := by
  induction side with
  | nil => exact ⟨[], .nil, by simp [powerProduct]⟩
  | cons t rest ih =>
    obtain ⟨vs, hvs, hp⟩ := ih fun u hu => hw u (mem_cons_of_mem _ hu)
    have hf : ∃ ws, List.Forall₂ (fun f w => Term σ f.1 w) (Emit.concentrationFactors gap t.1 t.2) ws ∧
        ws.prod = σ.row "C" t.1 ^ t.2.toReal := by
      unfold Emit.concentrationFactors
      split
      · next h =>
        refine ⟨List.replicate (order t.2) (σ.row "C" t.1), ?_, by rw [prod_replicate, pow_order (hw t mem_cons_self) h]⟩
        rw [← order]
        generalize order t.2 = n
        induction n with
        | zero => exact .nil
        | succ n ih => exact .cons (Factor.cell "C" t.1).term ih
      · exact ⟨[_], .cons (Factor.pow (Factor.cell "C" t.1).value (Factor.plain t.2).value).term .nil, prod_singleton⟩
    obtain ⟨ws, hws, hw⟩ := hf
    exact ⟨_ ++ vs, rel_append hws hvs, by rw [prod_append, hw, hp]; rfl⟩

/-- The concentrations of one side of an equation, times a last factor. -/
def sideProduct (gap : Gap) (side : List (ℕ × Exact)) (last : Expr Exact) : Expr Exact :=
  Emit.productOf (side.map fun t => Emit.concentrationFactors gap t.1 t.2).flatten last

lemma sideProduct_power (gap : Gap) (hw : ∀ t ∈ side, 0 ≤ t.2.toReal)
    (he : Term σ e v) : Term σ (sideProduct gap side e) (powerProduct (σ.row "C") side * v) := by
  obtain ⟨vs, hvs, hp⟩ := concentrationFactors_terms gap hw
  rw [← hp]
  exact productOf_term hvs he

lemma sideProduct_term (gap : Gap) (hw : ∀ t ∈ side, IsWhole t.2)
    (he : Term σ e v) : Term σ (sideProduct gap side e) (monomial (σ.row "C") side * v) := by
  rw [← powerProduct_eq _ hw]
  exact sideProduct_power gap (fun t ht => (hw t ht).nonneg) he

variable {r : Reaction ℕ Exact}

lemma forwardRate_eq (hs : Side r.reactants r.reactantNu)
    (i : ℕ) (hc : (if Emit.keepsRateConstant r then pure (.var "kf") else Rate.arrhenius r.A r.b r.E) = .ok e) :
    Emit.forwardRate r i = .ok (.set (.cell "fwd_rxn_rates" i)
      (sideProduct { after := 0 } (r.reactants.zip r.reactantNu) e)) := by
  rw [Emit.forwardRate, mapM_eq_ok_map₂ (forall₂_zipIdx hs.length_eq), ok_bind]
  · cases hk : Emit.keepsRateConstant r <;> simp only [hk, if_true, Bool.false_eq_true, if_false] at hc ⊢ <;>
      rw [hc] <;> rfl
  · rintro ⟨s, k⟩ t ⟨rfl, ht⟩
    simp only [entryAt_eq_ok.2 ht, ok_bind, pure_ok]

lemma reverseRate_eq (hs : Side r.products r.productNu) (j : ℕ)
    (hc : (if r.reverse.isEmpty then pure (sideProduct {} (r.products.zip r.productNu) (.var "kf") / .var "Kc")
      else do pure (sideProduct {} (r.products.zip r.productNu) (← Rate.arrheniusOf r.reverse)))
      = .ok e) :
    Emit.reverseRate r j = .ok (.set (.cell "rev_rxn_rates" j) e) := by
  rw [Emit.reverseRate, mapM_eq_ok_map₂ (forall₂_zip hs.length_eq)
    (g := fun t => Emit.concentrationFactors {} t.1 t.2), ok_bind]
  · cases hk : r.reverse.isEmpty <;> simp only [hk, if_true, Bool.false_eq_true, if_false] at hc ⊢
    · rw [bind_eq_ok] at hc
      obtain ⟨k, hk, hc⟩ := hc
      cases hc
      rw [hk]
      rfl
    · cases hc
      rfl
  · rintro s t ⟨ht, rfl⟩
    rw [coefficient_of_mem hs.nodup ht]
    rfl

end Products

end

end Kinetics
