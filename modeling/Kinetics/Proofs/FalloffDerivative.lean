import Kinetics.Proofs.ColliderConcentration
import Kinetics.Proofs.FalloffRates
import Kinetics.Proofs.SpeciesDerivative
/-!
# Derivatives of falloff rates by mass fractions

The emitted derivative of a falloff reaction keeps the share of the reduced pressure in
`pres_mod_temp`: first as it enters the part common to all species, then as it stands for
the concentrations of single colliders. `falloff_derivative` compares the emitted
derivative with that of what the rate code computes.
-/

open List

namespace Kinetics.Jacobian

open Code

noncomputable section

/-! ## The quotient of the limits and the reduced pressure -/

section Pressure
variable {n : ℕ} {r : Reaction ℕ Exact}

/-- The quotient of the limits, as it is written from the quotient of the factors and the differences
of the other parameters. -/
def writtenQuotient (r : Reaction ℕ Exact) (T logT : ℝ) : ℝ := match r.low, r.high with
  | a :: b :: e :: _, _ =>
    Rate.rateConstant (.measure (a.toReal / r.A.toReal)) (b - r.b) (e - r.E) T logT
  | _, a :: b :: e :: _ =>
    Rate.rateConstant (.measure (r.A.toReal / a.toReal)) (r.b - b) (r.E - e) T logT
  | _, _ => 0

/-- The same expression is written for the reduced pressure and for its share. -/
lemma limitRatio_ok (h : FalloffReaction r) : ∃ beta E e, limitRatio r = .ok (beta, E, e) ∧ limitQuotient r = .ok e ∧
      ∀ σ, Term σ e (writtenQuotient r (σ.var "T") (σ.var "logT")) := by
  rcases h.limits with ⟨⟨a, b, e, rest, hl, ha⟩, -⟩ | ⟨hl, a, b, e, rest, hh, ha⟩
  · obtain ⟨ratio, hr, ht⟩ := Rate.arrhenius_ok (A := .measure (a.toReal / r.A.toReal))
      (div_ne_zero ha h.factor) (b - r.b) (e - r.E)
    refine ⟨b - r.b, e - r.E, ratio, ?_, ?_, by simpa only [writtenQuotient, hl] using ht⟩
    · simp [limitRatio, hl, entryAt, Exact.div_ok h.factor, hr]
    · simp [limitQuotient, hl, entryAt, Exact.div_ok h.factor, hr]
  · obtain ⟨ratio, hr, ht⟩ := Rate.arrhenius_ok (A := .measure (r.A.toReal / a.toReal))
      (div_ne_zero h.factor ha) (r.b - b) (r.E - e)
    refine ⟨r.b - b, r.E - e, ratio, ?_, ?_, by simpa only [writtenQuotient, hl, hh] using ht⟩
    · simp [limitRatio, hl, hh, entryAt, Exact.div_ok ha, hr]
    · simp [limitQuotient, hl, hh, entryAt, Exact.div_ok ha, hr]

open Classical in
/-- The concentration of colliders, and the reduced pressure from it. -/
lemma reducedPressureItems_run (h : LindemannReaction n r) (shared : Option (Excess Exact)) :
    ∃ items next, reducedPressureItems shared r = .ok (items, next) ∧ ∀ σ, Shares shared σ →
      let X := if Inherits shared r then σ.var "conc_temp"
        else colliderConcentration r (σ.var "m") (σ.row "conc")
      runItems σ items = some ((σ.setVar "conc_temp" X).setVar "Pr"
        (X * writtenQuotient r (σ.var "T") (σ.var "logT"))) := by
  obtain ⟨beta, E, ratio, hr, -, ht⟩ := limitRatio_ok h.toFalloff
  refine ⟨_, _, by simp only [reducedPressureItems, h.falloff, if_true, hr, ok_bind]; rfl, fun σ hσ => ?_⟩
  intro X
  have hPr := ((Factor.var (σ := σ.setVar "conc_temp" X) "conc_temp").term.mul
    (Factor.group (ht _).value).term).value
  simp only [var_update_var, String.reduceEq, if_true, if_false] at hPr
  rw [runItems_append, colliderItems_run hσ h.efficiencies, Option.bind_some, runItems, Item.run, run_setVar "Pr" hPr]
  rfl

end Pressure

/-! ## The part common to all species -/

section Common
variable {n : ℕ} {r : Reaction ℕ Exact}

/-- The share of the reduced pressure in the slope of the modification. -/
def pressureFactor (r : Reaction ℕ Exact) (P : ℝ) : ℝ := if r.low = [] then -P / (1 + P) else 1 / (1 + P)

/-- What is added to the net rate for the reduced pressure: nothing for a collider that does not count. -/
def keptShare (r : Reaction ℕ Exact) (P net : ℝ) : ℝ := if hasColliders r then pressureFactor r P * net else 0

/-- What `pres_mod_temp` holds at the end, from its content at the start. -/
def heldShare (r : Reaction ℕ Exact) (P quotient net before : ℝ) : ℝ :=
  if hasColliders r then pressureFactor r P * net * (quotient / (1 + P)) else before

lemma limitShare_factor (h : LindemannReaction n r) (σ : Memory) :
    Factor σ (limitShare r) (pressureFactor r (σ.var "Pr")) := by
  unfold limitShare pressureFactor
  rcases h.limits with ⟨⟨a, b, e, rest, hl, -⟩, -⟩ | ⟨hl, a, b, e, rest, hh, -⟩
  · simp only [hl, isEmpty_cons, Bool.not_false, if_true, reduceCtorEq, if_false]
    exact Factor.group (Factor.one.term.div (onePlusPr_factor σ)).value
  · simp only [hl, hh, isEmpty_nil, isEmpty_cons, Bool.not_true, Bool.not_false, Bool.false_eq_true, if_true, if_false]
    exact Factor.group ((((Factor.var "Pr").neg rfl).term.div (onePlusPr_factor σ)).value)

lemma orderedValue_update_var (k : Ranks) (r : Reaction ℕ Exact) (σ : Memory) (name : String) (x : ℝ) :
    orderedValue k r (σ.setVar name x) = orderedValue k r σ := by
  simp [orderedValue]

/-- Nothing stands in the parentheses of the common part: no direction has an order, and no collider
counts. -/
def Void (r : Reaction ℕ Exact) : Prop := Uncounted r ∧ hasColliders r = false

lemma void_iff (hf : r.falloff = true) : Uncounted r ∧ (r.falloff && hasColliders r) = false ↔ Void r := by
  simp [Void, hf]

open Classical in
/-- The common part, from the reduced pressure and the rates in memory. -/
lemma commonItems_falloff (h : LindemannReaction n r) (k : Ranks) :
    ∃ steps, commonItems k r = .ok steps ∧ ∀ σ : Memory,
      let net := netValue k r σ
      runSteps σ steps = if Void r then none else some ((σ.setVar "pres_mod_temp"
        (heldShare r (σ.var "Pr") (writtenQuotient r (σ.var "T") (σ.var "logT")) net
          (σ.var "pres_mod_temp"))).setVar "j_temp"
        (-σ.var "mw_avg" * σ.var "rho_inv" * σ (.cell "pres_mod" (k.modified.map Int.ofNat)) *
          (orderedValue k r σ + keptShare r (σ.var "Pr") net))) := by
  have hn : needsModificationSlope r = hasColliders r := by
    simp [needsModificationSlope, h.isModified]
  unfold keptShare heldShare
  cases hc : hasColliders r with
  | false =>
    refine ⟨[commonDerivative k r], by simp only [commonItems, hn, hc, h.falloff]; rfl, fun σ => ?_⟩
    intro net
    simp only [runSteps, commonDerivative_run h.toArrheniusReaction, void_iff h.falloff, Bool.false_eq_true, if_false,
      setVar_self]
    simp only [commonValue, h.isModified, hc, Bool.and_false, if_true, Bool.false_eq_true, if_false]
    split <;> rfl
  | true =>
    have hvl : ¬Void r := fun hv => by simp [hv.2] at hc
    obtain ⟨-, -, quotient, -, hq, ht⟩ := limitRatio_ok h.toFalloff
    refine ⟨[.setVar "pres_mod_temp" (.group (limitShare r) * k.net r), commonDerivative k r,
      .assign 2 (.var "pres_mod_temp") .multiply (quotient / Rate.onePlusPr)],
      by simp only [commonItems, hn, hc, h.falloff, modificationStart, modificationEnd, h.troe, h.sri,
        hq]; rfl, fun σ => ?_⟩
    intro net
    have hk : (.group (limitShare r) * k.net r : Expr Exact).value σ = some (pressureFactor r (σ.var "Pr") * net) :=
      ((Factor.group (limitShare_factor h σ).value).term.mul (net_factor k r σ).term).value
    rw [if_neg hvl, runSteps, run_setVar _ hk, Option.bind_some, runSteps, commonDerivative_run h.toArrheniusReaction,
      if_neg fun hv => hvl ((void_iff h.falloff).1 hv), Option.bind_some, commonValue, h.isModified, h.falloff, hc]
    simp only [if_true, orderedValue_update_var, String.reduceEq, if_false, Function.update_apply,
      Place.cell.injEq, false_and, Bool.and_true]
    generalize -σ.var "mw_avg" * _ * _ * _ = v
    have hs := ((ht ((σ.setVar "pres_mod_temp" (pressureFactor r (σ.var "Pr") * net)).setVar "j_temp" v)).div
      (onePlusPr_factor _)).value
    simp only [var_update_var, String.reduceEq, if_false] at hs
    rw [runSteps, run_assign 2 .multiply rfl hs]
    simp only [Option.bind_some, runSteps, Form.update]
    -- the last statement writes over the share that the common part has read
    rw [Function.update_comm (by decide), Function.update_idem]
    simp

end Common

/-! ## The derivative by one mass fraction -/

section Derivative
variable {n : ℕ} {sp : List (Species Exact)} {r : Reaction ℕ Exact}

/-- The share of single colliders in the derivative. Where all molecules count alike there is none:
their number depends on temperature and pressure only. -/
def singleShare (r : Reaction ℕ Exact) (n j : ℕ) (fraction : ℝ) : ℝ := if r.collider = none ∧ r.efficiencies = [] then 0
  else collides r j - fraction * collides r (n - 1)

lemma addColliderShare_falloff (h : LindemannReaction n r) {j : ℕ} (hj : j + 1 < sp.length)
    {last : Species Exact} (hls : sp.getLast? = some last) (hl : 0 < last.weight.toReal)
    (weight : Exact) (sum : Expr Exact) :
    ∃ e, addColliderShare sum sp r j weight (.measure (weight.toReal / last.weight.toReal)) = .ok e ∧
      ∀ σ s, sum.value σ = some s → e.value σ = some (s + singleShare r sp.length j
        (weight.toReal / last.weight.toReal) * σ.var "pres_mod_temp") := by
  have ht : ∀ σ : Memory, Term σ (.var "pres_mod_temp") (σ.var "pres_mod_temp") :=
    fun σ => (Factor.var "pres_mod_temp").term
  unfold singleShare
  rcases h.collider with hc | ⟨s, -, hc, he⟩
  · by_cases he : r.efficiencies = []
    · refine ⟨sum, by simp [addColliderShare, hc, he], fun σ x hx => ?_⟩
      rw [hx, if_pos ⟨hc, he⟩, zero_mul, add_zero]
    · obtain ⟨e, ha, hv⟩ := addColliderShare_efficiencies sp (.inl ⟨h.falloff, hc⟩) he
        sum j weight (.measure (weight.toReal / last.weight.toReal))
      refine ⟨e, ha, fun σ x hx => ?_⟩
      rw [hv σ x hx, if_neg fun hn => he hn.2]
      simp only [collides, hc, Exact.toReal_measure, mul_comm]
  · have hen : entryAt sp (sp.length - 1) = .ok last := by
      rwa [entryAt_eq_ok, ← List.getLast?_eq_getElem?]
    simp only [addColliderShare, collides, hc, he, isEmpty_nil, Bool.not_true, Bool.and_false,
      Bool.false_eq_true, if_false, beq_iff_eq, Option.some.injEq, reduceCtorEq, false_and]
    by_cases hsj : s = j
    · have hne : s ≠ sp.length - 1 := by omega
      refine ⟨sum + .var "pres_mod_temp", by rw [if_pos hsj]; rfl, fun σ x hx => ?_⟩
      rw [value_add hx (ht σ), if_pos hsj, if_neg hne, mul_zero, sub_zero, one_mul]
    · by_cases hsl : s = sp.length - 1
      · refine ⟨sum - .var "pres_mod_temp" * .full (.measure (weight.toReal / last.weight.toReal)),
          by rw [if_neg hsj, if_pos hsl, hen, ok_bind, Exact.div_ok hl.ne']; rfl, fun σ x hx => ?_⟩
        rw [value_sub hx ((ht σ).mul (Factor.full _).term), if_neg hsj, if_pos hsl, Exact.toReal_measure]
        congr 1
        ring
      · refine ⟨sum, by rw [if_neg hsj, if_neg hsl]; rfl, fun σ x hx => ?_⟩
        rw [hx, if_neg hsj, if_neg hsl, mul_zero, sub_zero, zero_mul, add_zero]

open Classical in
/-- The emitted derivative of a falloff reaction, from what the memory holds before its statements. -/
lemma falloffStatements_run (h : LindemannReaction sp.length r) (shared : Option (Excess Exact))
    (k : Ranks) {j : ℕ} (hj : j + 1 < sp.length) {weight : Exact} {last : Species Exact}
    (hls : sp.getLast? = some last) (hw : 0 < weight.toReal) (hl : 0 < last.weight.toReal) :
    ∃ pressure next start e, reducedPressureItems shared r = .ok (pressure, next) ∧
      compositionStart sp k r = .ok start ∧ speciesDerivative sp k r j weight = .ok e ∧
      ∀ σ, Shares shared σ → let X := if Inherits shared r then σ.var "conc_temp"
          else colliderConcentration r (σ.var "m") (σ.row "conc")
        let quotient := writtenQuotient r (σ.var "T") (σ.var "logT")
        let net := netValue k r σ
        let modification := σ (.cell "pres_mod" (k.modified.map Int.ofNat))
        let fraction := weight.toReal / last.weight.toReal
        let kf := forwardConstant r (σ.var "T") (σ.var "logT")
        let kr := reverseConstant sp r (σ.var "T") (σ.var "logT") (σ.var "Kc")
        (runItems σ (pressure ++ start)).bind (fun τ => e.value τ) = if Void r then none else
          some (-σ.var "mw_avg" * σ.var "rho_inv" * modification *
              (orderedValue k r σ + keptShare r (X * quotient) net) * (1 - fraction)
            + singleShare r sp.length j fraction * heldShare r (X * quotient) quotient net (σ.var "pres_mod_temp")
            + modification * (netSlope r kf kr (σ.row "conc") j
              - fraction * netSlope r kf kr (σ.row "conc") (sp.length - 1))) := by
  obtain ⟨pressure, next, hp, hpr⟩ := reducedPressureItems_run h shared
  obtain ⟨common, hc, hcr⟩ := commonItems_falloff h k
  obtain ⟨start, hs, hsr⟩ := compositionStart_of_common h.toArrheniusReaction hc
  obtain ⟨e, he, hev⟩ := speciesDerivative_of_share h.toArrheniusReaction k j hls hw hl
    (addColliderShare_falloff h hj hls hl weight)
  refine ⟨pressure, next, start, e, hp, hs, he, fun σ hσ => ?_⟩
  intro X quotient net modification fraction kf kr
  rw [runItems_append, hpr σ hσ, Option.bind_some]
  obtain ⟨ρ, hρ⟩ : ∃ ρ : Memory, ρ = (σ.setVar "conc_temp" X).setVar "Pr" (X * quotient) := ⟨_, rfl⟩
  rw [← hρ]
  -- the equilibrium constant is written before the common part, which does not read it
  obtain ⟨Kc, hf, hrn⟩ := hsr ρ
  have hcommonRun := hcr (ρ.setVar "Kc" Kc)
  by_cases hv : Void r
  · simp only [if_pos hv] at hcommonRun ⊢
    rw [hf hcommonRun, Option.bind_none]
  · simp only [if_neg hv] at hcommonRun ⊢
    obtain ⟨kr', hru, hk'⟩ := hrn _ hcommonRun (by simp) (by simp) (by simp)
    have hn : ∀ s, netSlope r kf kr' (σ.row "conc") s = netSlope r kf kr (σ.row "conc") s := fun s =>
      netSlope_congr s (fun hr => by simpa [hρ] using hk' hr) fun _ _ => rfl
    rw [hru, Option.bind_some, hev]
    simp only [derivativeValue, netValue, h.isModified, if_true, row_update_var_eq, orderedValue_update_var,
      Function.update_apply, Place.cell.injEq, String.reduceEq, reduceCtorEq, and_false, false_and, if_false, hρ]
    rw [hn, hn]

end Derivative

/-! ## Comparison with the derivative of the emitted rates -/

section Comparison
variable {m : Mixture} {r : Reaction ℕ Exact}

/-- What the Jacobian code works with: its own reduced pressure and quotient of the limits, and what
`pres_mod_temp` held before. -/
structure WorkValues where
  pressure : ℝ
  quotient : ℝ
  before : ℝ

open Classical in
/-- These values, from a memory that may share the concentration of an earlier reaction. -/
def workValues (shared : Option (Excess Exact)) (r : Reaction ℕ Exact) (m : Mixture) (σ : Memory) : WorkValues where
  pressure := (if Inherits shared r then σ.var "conc_temp" else colliders r m) * writtenQuotient r m.T (Real.log m.T)
  quotient := writtenQuotient r m.T (Real.log m.T)
  before := σ.var "pres_mod_temp"

/-- The excess of the emitted derivative: what `pres_mod_temp` holds for the single colliders against
the slope of the modification, less what it adds to the common part against the loss of all colliders
together. -/
def strayed (m : Mixture) (r : Reaction ℕ Exact) (q : Rates) (w : WorkValues) (j : ℕ) : ℝ :=
  if r.collider = none ∧ r.efficiencies = [] then 0
  else
    let fraction := m.weight j / m.weight (m.count - 1)
    let net := q.forward - q.reverse
    singleShare r m.count j fraction * (heldShare r w.pressure w.quotient net w.before - modificationRise r m * net)
      - m.meanWeight * (1 / m.density) * (1 - fraction) *
        (q.modification * keptShare r w.pressure net - modificationRise r m * colliders r m * net)

/-- The Jacobian code works with the values of the rate code, and its colliders count. -/
structure Faithful (r : Reaction ℕ Exact) (m : Mixture) (w : WorkValues) : Prop where
  counted : hasColliders r = true
  pressure : w.pressure = reducedPressure r m
  quotient : w.quotient = limitQuotientAt r m.T

/-- The conditions for that: the collider counts, no concentration is taken over, and the limits and
their quotient are written as the powers that they are. -/
structure Regular (shared : Option (Excess Exact)) (r : Reaction ℕ Exact) : Prop where
  counted : hasColliders r = true
  fresh : ¬Inherits shared r
  own : Proper r.A r.b r.E
  low : ∀ a b e rest, r.low = a :: b :: e :: rest →
    Proper a b e ∧ Proper (.measure (a.toReal / r.A.toReal)) (b - r.b) (e - r.E)
  high : ∀ a b e rest, r.high = a :: b :: e :: rest →
    Proper a b e ∧ Proper (.measure (r.A.toReal / a.toReal)) (r.b - b) (r.E - e)

variable {shared : Option (Excess Exact)}

lemma writtenQuotient_eq {n : ℕ} (h : LindemannReaction n r)
    (hr : Regular shared r) {T : ℝ} (hT : 0 < T) : writtenQuotient r T (Real.log T) = limitQuotientAt r T := by
  have ho := rateConstant_eq_arrheniusLaw hr.own hT
  unfold writtenQuotient limitQuotientAt
  rcases h.limits with ⟨⟨a, b, e, rest, hl, -⟩, hh⟩ | ⟨hl, a, b, e, rest, hh, -⟩
  · obtain ⟨hg, hq⟩ := hr.low a b e rest hl
    simp only [hl, hh, limitConstant, forwardConstant, ho, rateConstant_eq_arrheniusLaw hg hT,
      rateConstant_eq_arrheniusLaw hq hT, arrheniusLaw_div a r.A b r.b e r.E hT]
  · obtain ⟨hg, hq⟩ := hr.high a b e rest hh
    simp only [hl, hh, limitConstant, forwardConstant, ho, rateConstant_eq_arrheniusLaw hg hT,
      rateConstant_eq_arrheniusLaw hq hT, arrheniusLaw_div r.A a r.b b r.E e hT]

lemma Regular.faithful (hr : Regular shared r)
    (h : LindemannReaction m.count r) (hT : 0 < m.T) (σ : Memory) : Faithful r m (workValues shared r m σ) := by
  have hq := writtenQuotient_eq h hr hT
  refine ⟨hr.counted, ?_, hq⟩
  simp only [workValues]
  rw [if_neg hr.fresh, hq, reducedPressure_eq, mul_comm]

variable {w : WorkValues}

/-- With the values of the rate code the derivative is right for a low-pressure limit. For a
high-pressure limit the share of single colliders is too large by a factor of the reduced pressure. -/
lemma strayed_of_faithful {before : ℝ} (h : Faithful r m w)
    (hp : 1 + reducedPressure r m ≠ 0) (j : ℕ) : strayed m r (falloffRates r before m) w j = if r.low = [] then
      singleShare r m.count j (m.weight j / m.weight (m.count - 1)) *
        (((falloffRates r before m).forward - (falloffRates r before m).reverse) * limitQuotientAt r m.T *
          (1 - reducedPressure r m) / (1 + reducedPressure r m) ^ 2)
      else 0 := by
  have hcl : ¬(r.collider = none ∧ r.efficiencies = []) := by
    rintro ⟨hc, he⟩
    have := h.counted
    simp [hasColliders, hc, he] at this
  have hP := reducedPressure_eq r m
  simp only [strayed, if_neg hcl, heldShare, keptShare, h.counted, if_true, h.pressure, h.quotient,
    modificationRise, pressureFactor]
  have hm : (falloffRates r before m).modification = placeBetween r (reducedPressure r m) := rfl
  rw [hm, placeBetween]
  generalize reducedPressure r m = P at hP hp ⊢
  subst hP
  by_cases hl : r.low = []
  · simp only [hl, if_true]
    field_simp
    ring
  · simp only [hl, if_false]
    field_simp
    ring

variable {rs : List (Reaction ℕ Exact)} {μ σ : Memory} {q : Rates}

lemma Prepared.colliderConcentration_eq {i : ℕ} (h : Prepared m rs i r q μ σ) (hr : LindemannReaction m.count r)
    (htt : σ.var "m" = m.total) : colliderConcentration r (σ.var "m") (σ.row "conc") = colliders r m := by
  unfold colliders colliderConcentration
  rcases hr.collider with hc | ⟨s, hs, hc, -⟩
  · simp only [hc, thirdBodies]
    congr 2
    exact map_congr_left fun t ht => by rw [h.concentrations t.1 (hr.bodies t ht)]
  · simp only [hc]
    exact h.concentrations s hs

/-- The slope of the modification in the terms of the emitted expression. -/
lemma rise_terms {W L ρ w R X F α β : ℝ} (hW : W ≠ 0) (hL : L ≠ 0) (hρ : ρ ≠ 0) :
    W / ρ * (R * (-(w * (1 / W - 1 / L)) * X + ρ / W * α + -(ρ / L) * β) * F) =
      R * F * (α - W / L * β) - w * (1 / ρ) * (1 - W / L) * (R * X * F) := by
  field_simp
  ring

lemma falloff_terms {before x y : ℝ} {j : ℕ} (hW : m.weight j ≠ 0)
    (hL : m.weight (m.count - 1) ≠ 0) (hρ : m.density ≠ 0) :
    let q := falloffRates r before m
    let net := q.forward - q.reverse
    let fraction := m.weight j / m.weight (m.count - 1)
    singleShare r m.count j fraction * heldShare r w.pressure w.quotient net w.before
        + q.modification * (x - fraction * y)
        - m.meanWeight * (1 / m.density) * q.modification *
          (orderedRates r q + keptShare r w.pressure net) * (1 - fraction) =
      m.weight j / m.density *
          (modificationRise r m * m.fractionSlope j (colliders r m) (collides r j) (collides r (m.count - 1)) * net
            + q.modification * m.fractionSlope j (orderedRates r q) x y)
        + strayed m r q w j := by
  intro q net fraction
  unfold Mixture.fractionSlope
  rw [mul_add (m.weight j / m.density), rise_terms hW hL hρ, derivative_terms_plain hW hL hρ]
  unfold strayed singleShare
  by_cases ha : r.collider = none ∧ r.efficiencies = []
  · -- all molecules count alike: what the common part loses is what the two species bring
    have hk : keptShare r w.pressure net = 0 := by simp [keptShare, hasColliders, ha.1, ha.2]
    have ho : ∀ s, collides r s = 1 := fun s => by simp [collides, efficiencyOf, ha.1, ha.2]
    have ht : colliders r m = m.total := by
      simp [colliders, colliderConcentration, thirdBodies, ha.1, ha.2]
    have hc : m.meanWeight * (1 / m.density) * m.total = 1 := by
      rw [mul_right_comm, meanWeight_mul_total, mul_one_div_cancel hρ]
    rw [if_pos ha, if_pos ha, hk, ho, ho, ht]
    linear_combination (modificationRise r m * net * (1 - m.weight j / m.weight (m.count - 1))) * hc
  · simp only [if_neg ha]
    ring

open Classical in
/-- The emitted derivative of a falloff reaction without broadening by the mass fraction of species
`j`, against the derivative of what the rate code computes. They agree up to the weight over the
density for a regular reaction with a low-pressure limit. With a high-pressure limit the share of single
colliders carries a factor of the reduced pressure too many. A collider at the first position does not
count, so its share is left out of the common part and what `pres_mod_temp` held before is taken for it;
and where nothing is left in the parentheses there is no expression. -/
theorem falloff_derivative {reactions : List (Reaction ℕ Exact)} {i j : ℕ} {sj : Species Exact}
    (hi : reactions[i]? = some r) (hr : LindemannReaction m.count r)
    (hw : ∀ s ∈ m.species, 0 < s.weight.toReal) (hj : j + 1 < m.count)
    (hs : m.species[j]? = some sj) (hT : 0 < m.T) (hP : m.P ≠ 0) (hm : m.moles ≠ 0)
    (hpressure : 1 + reducedPressure r m ≠ 0) (t : Emit.Target) (label : ℤ) (μ : Memory)
    (shared : Option (Excess Exact)) : ∃ pressure next start e q progress D,
      reducedPressureItems shared r = .ok (pressure, next) ∧
      compositionStart m.species (ranksAt reactions i) r = .ok start ∧
      speciesDerivative m.species (ranksAt reactions i) r j sj.weight = .ok e ∧
      emittedRates t reactions label r i μ m = some q ∧
      (∀ x, (emittedRates t reactions label r i μ (m.withFraction j x)).map Rates.progress = some (progress x)) ∧
      HasDerivAt progress D (m.Y j) ∧ ∀ σ, Prepared m reactions i r q μ σ → σ.var "m" = m.total → Shares shared σ →
        ((runItems σ (pressure ++ start)).bind (fun τ => e.value τ) = if Void r then none else
          some (m.weight j / m.density * D + strayed m r q (workValues shared r m σ) j)) ∧
        (Regular shared r → strayed m r q (workValues shared r m σ) j = if r.low = [] then
            singleShare r m.count j (m.weight j / m.weight (m.count - 1)) * ((q.forward - q.reverse) *
              limitQuotientAt r m.T * (1 - reducedPressure r m) / (1 + reducedPressure r m) ^ 2)
            else 0) := by
  obtain ⟨sl, hsl, hlast⟩ := m.exists_last hj
  have hWj := hw sj (mem_of_getElem? hs)
  have hWl := hw sl (mem_of_getElem? hsl)
  have hr' : LindemannReaction m.species.length r := hr
  obtain ⟨pressure, next, start, e, hpr, hstart, he, hrun⟩ :=
    falloffStatements_run hr' shared (ranksAt reactions i) hj hlast hWj hWl
  rw [← Mixture.weight_eq hs] at hWj hrun
  rw [← Mixture.weight_eq hsl] at hWl hrun
  have hρ := Mixture.density_ne_zero hT.ne' hP hm
  refine ⟨pressure, next, start, e, falloffRates r (μ.var "Kc") m,
    fun x => (falloffRates r (μ.var "Kc") (m.withFraction j x)).progress, _, hpr, hstart, he,
    emittedRates_falloff hr t reactions label i μ, fun x => ?_,
    hasDerivAt_falloff hr.efficiencies (μ.var "Kc") hj hm hpressure, fun σ hσ htotal hshared => ⟨?_, fun hregular =>
      strayed_of_faithful (hregular.faithful hr hT σ) hpressure j⟩⟩
  · rw [emittedRates_falloff (m := m.withFraction j x) hr, Option.map_some]
  · have hq : r.reversible = false → (falloffRates r (μ.var "Kc") m).reverse = 0 := ratesAt_reverse
    have hmod : σ (.cell "pres_mod" ((ranksAt reactions i).modified.map Int.ofNat)) =
        (falloffRates r (μ.var "Kc") m).modification := by
      rw [ranksAt_modified hi hr.isModified]
      exact hσ.modification hr.isModified
    have hslope : ∀ kf kr s, netSlope r kf kr (σ.row "conc") s = netSlope r kf kr m.concentration s :=
      fun kf kr s => netSlope_congr s (fun _ => rfl) fun s hs => hσ.concentrations s (hr.members s hs)
    have hvalue := hrun σ hshared
    simp only [hσ.reverseConstant_eq] at hvalue
    simp only [hσ.colliderConcentration_eq hr htotal, hσ.net_eq_of hq, hσ.orderedValue_eq hq, thirdBodyOrder_falloff hr.falloff,
      zero_mul, zero_add, hmod,
      hslope, hσ.temperature, hσ.logarithm, hσ.meanWeight, hσ.volume] at hvalue
    rw [hvalue]
    split
    · rfl
    · rw [← falloff_terms (w := workValues shared r m σ) hWj.ne' hWl.ne' hρ]
      simp only [workValues, Mixture.count]
      congr 1
      ring

/-- Two atoms recombine with a high-pressure limit, and hydrogen is the better partner. -/
def activatedRecombination : Reaction ℕ Exact :=
  { Reaction.elementary false [0] [.count 2] [1] [.count 1] (.measure 1) (.measure 0) (.measure 0) with
    falloff := true
    high := [.measure 1, .measure 0, .measure 0]
    efficiencies := [(1, .measure 2.0)] }

lemma activatedRecombination_lindemann : LindemannReaction hydrogenMixture.count activatedRecombination where
  plog := rfl
  chebyshev := rfl
  reactants := wholeSide_single two_pos (by simp)
  products := wholeSide_single one_pos (by simp)
  members := by simp [activatedRecombination, Reaction.elementary, hydrogenMixture, Mixture.count]
  factor := by norm_num [activatedRecombination, Reaction.elementary]
  reverse := .inl rfl
  falloff := rfl
  troe := rfl
  sri := rfl
  limits := .inr ⟨rfl, _, _, _, _, rfl, by norm_num⟩
  collider := .inl rfl
  efficiencies := by decide
  bodies := by simp [activatedRecombination, hydrogenMixture, Mixture.count]

lemma activatedRecombination_regular : Regular none activatedRecombination where
  counted := rfl
  fresh := by simp [Inherits]
  own := fun _ => le_rfl
  low := fun _ _ _ _ h => by cases h
  high := fun a b e rest h => by
    cases h
    exact ⟨fun _ => le_rfl, fun _ => by simp [activatedRecombination, Reaction.elementary]⟩

/-- Its limits are the same, so that the reduced pressure is the concentration of colliders. -/
lemma activatedRecombination_quotient (T : ℝ) : limitQuotientAt activatedRecombination T = 1 := by
  refine div_self ?_
  simp [limitConstant, forwardConstant, Rate.rateConstant, Rate.repeatsTemperature, activatedRecombination,
    Reaction.elementary]

lemma activatedRecombination_pressure : 0 < reducedPressure activatedRecombination hydrogenMixture ∧
      reducedPressure activatedRecombination hydrogenMixture < 1 := by
  have hR : (gasConstant : Exact).toReal = 8314.4621 := by
    change Decimal.toReal ⟨83144621, 4, 0⟩ = _
    norm_num [Decimal.toReal]
  have hv : reducedPressure activatedRecombination hydrogenMixture =
      hydrogenMixture.total + hydrogenMixture.concentration 1 := by
    rw [reducedPressure_eq, activatedRecombination_quotient]
    norm_num [colliders, colliderConcentration, thirdBodies, activatedRecombination, Reaction.elementary]
  rw [hv]
  norm_num [Mixture.total, Mixture.concentration, Mixture.density, Mixture.meanWeight, Mixture.moles,
    Mixture.fraction, Mixture.weight, Mixture.count, hydrogenMixture, Finset.sum_range_succ, hR]

lemma activatedRecombination_net (before : ℝ) : (falloffRates activatedRecombination before hydrogenMixture).forward
      - (falloffRates activatedRecombination before hydrogenMixture).reverse ≠ 0 := by
  have hf : (falloffRates activatedRecombination before hydrogenMixture).forward
      - (falloffRates activatedRecombination before hydrogenMixture).reverse =
      hydrogenMixture.concentration 0 ^ order (.count 2) := by
    simp [falloffRates, ratesAt, monomial, forwardConstant, Rate.rateConstant, Rate.repeatsTemperature,
      activatedRecombination, Reaction.elementary]
  rw [hf]
  exact pow_ne_zero _ (hydrogenMixture_concentration (by decide))

/-- The derivative of the recombination by the mass fraction of the atoms, which comes out wrong. -/
theorem activatedRecombination_derivative : ∃ pressure next start e q progress D stray,
      reducedPressureItems none activatedRecombination = .ok (pressure, next) ∧
      compositionStart hydrogenMixture.species (ranksAt [activatedRecombination] 0) activatedRecombination = .ok start ∧
      speciesDerivative hydrogenMixture.species (ranksAt [activatedRecombination] 0) activatedRecombination 0
        (.measure 1) = .ok e ∧
      emittedRates { language := .c } [activatedRecombination] 0 activatedRecombination 0
        (fun _ => hydrogenMixture.total) hydrogenMixture = some q ∧
      (∀ x, (emittedRates { language := .c } [activatedRecombination] 0 activatedRecombination 0
        (fun _ => hydrogenMixture.total) (hydrogenMixture.withFraction 0 x)).map Rates.progress = some (progress x)) ∧
      HasDerivAt progress D (hydrogenMixture.Y 0) ∧
      (runItems (jacobianMemory hydrogenMixture q fun _ => hydrogenMixture.total) (pressure ++ start)).bind
        (fun τ => e.value τ) = some (hydrogenMixture.weight 0 / hydrogenMixture.density * D + stray) ∧
      stray ≠ 0 := by
  obtain ⟨hpos, hlt⟩ := activatedRecombination_pressure
  obtain ⟨pressure, next, start, e, q, progress, D, hpressure, hstart, he, hq, hprogress, hD, hvalue⟩ :=
    falloff_derivative (j := 0) (show [activatedRecombination][0]? = some activatedRecombination from rfl)
      activatedRecombination_lindemann (by norm_num [hydrogenMixture]) (by decide) rfl
      (by norm_num [hydrogenMixture]) (by norm_num [hydrogenMixture]) hydrogenMixture_moles
      (by positivity) { language := .c } 0 (fun _ => hydrogenMixture.total) none
  obtain ⟨hrun, hstray⟩ := hvalue _ (jacobianMemory_prepared [activatedRecombination] 0 q _) rfl fun _ h => by cases h
  have hvalued : ¬Void activatedRecombination := fun hv => by cases hv.2
  rw [if_neg hvalued] at hrun
  refine ⟨pressure, next, start, e, q, progress, D, _, hpressure, hstart, he, hq, hprogress, hD, hrun, ?_⟩
  obtain rfl : falloffRates activatedRecombination _ hydrogenMixture = q :=
    Option.some.inj ((emittedRates_falloff activatedRecombination_lindemann _ _ _ _ _).symm.trans hq)
  have hshare : singleShare activatedRecombination hydrogenMixture.count 0
      (hydrogenMixture.weight 0 / hydrogenMixture.weight (hydrogenMixture.count - 1)) ≠ 0 := by
    norm_num [singleShare, collides, efficiencyOf, activatedRecombination, Reaction.elementary,
      hydrogenMixture, Mixture.weight, Mixture.count]
  rw [hstray activatedRecombination_regular, if_pos (show activatedRecombination.low = [] from rfl),
    activatedRecombination_quotient, mul_one]
  exact mul_ne_zero hshare (div_ne_zero (mul_ne_zero (activatedRecombination_net _) (sub_pos.2 hlt).ne')
    (by positivity))

end Comparison

end

end Kinetics.Jacobian
