import Kinetics.Jacobian.Loop
import Kinetics.Proofs.RatesOfProgress
/-!
# Derivatives of rates of progress by mass fractions

The emitted derivative of an elementary or third-body reaction by a mass fraction is
read from its text: the part common to all species in `j_temp`, the share of the third
bodies, and the slopes by the concentrations of the species itself and of the last one.
`emitted_derivative` compares it with the derivative of what the rate code computes.
-/

open List

namespace Kinetics.Jacobian

open Code

noncomputable section

/-! ## Slopes by one concentration -/

variable {nu : List Exact}

section Slopes
variable {σ : Memory} {n : ℕ} {r : Reaction ℕ Exact}

def TermOr (σ : Memory) : Option (Expr Exact) → ℝ → Prop
  | some e, v => Term σ e v ∧ e.startsSigned = false
  | none, v => v = 0

def SumOr (σ : Memory) : Option (Expr Exact) → ℝ → Prop
  | some e, v => e.value σ = some v
  | none, v => v = 0

lemma TermOr.sum {e : Option (Expr Exact)} {v : ℝ} (h : TermOr σ e v) : SumOr σ e v := by
  cases e with
  | none => exact h
  | some e => exact h.1.value

/-- An optional sum before a term; where it is missing, the term follows a hole. -/
lemma value_getD_add {a : Option (Expr Exact)} {c : Expr Exact} {x y : ℝ} (ha : SumOr σ a x) (hc : Term σ c y) :
    (a.getD .hole + c).value σ = some (x + y) := by
  cases a with
  | none =>
    rw [show x = 0 from ha, zero_add]
    exact value_hole_add hc
  | some e => exact value_add ha hc

lemma value_getD_sub {a : Option (Expr Exact)} {c : Expr Exact} {x y : ℝ} (ha : SumOr σ a x) (hc : Term σ c y) :
    (a.getD .hole - c).value σ = some (x - y) := by
  cases a with
  | none =>
    rw [show x = 0 from ha, zero_sub]
    exact value_hole_sub hc
  | some e => exact value_sub ha hc

lemma directionSlope_ok {sp : List ℕ} (h : WholeSide sp nu)
    (constant : String) (s : ℕ) : ∃ e, directionSlope constant sp nu s = .ok e ∧ ∀ σ : Memory,
      TermOr σ e (σ.var constant * slope (σ.row "conc") s (sp.zip nu)) := by
  unfold directionSlope
  by_cases hs : s ∈ sp
  · obtain ⟨e, he, hsg, ht⟩ := concentrationSlope_ok h hs constant
    exact ⟨some e, by rw [if_pos (by simpa using hs), he]; rfl, fun σ => ⟨ht σ, hsg⟩⟩
  · refine ⟨none, by rw [if_neg (by simpa using hs)], fun σ => ?_⟩
    rw [slope_of_not_mem, mul_zero]
    · rfl
    · rwa [map_fst_zip h.length_eq.ge]

lemma rateSlopes_ok (h : ArrheniusReaction n r) (s : ℕ) : ∃ own, rateSlopes r s = .ok own ∧ ∀ σ : Memory,
      TermOr σ own.1 (σ.var "kf" * slope (σ.row "conc") s (r.reactants.zip r.reactantNu)) ∧
      TermOr σ own.2 (if r.reversible then
        σ.var "kr" * slope (σ.row "conc") s (r.products.zip r.productNu) else 0) := by
  obtain ⟨f, hf, hfv⟩ := directionSlope_ok h.reactants "kf" s
  obtain ⟨b, hb, hbv⟩ := directionSlope_ok h.products "kr" s
  cases hr : r.reversible
  · exact ⟨(f, none), by simp only [rateSlopes, hf, hr]; rfl, fun σ => ⟨hfv σ, rfl⟩⟩
  · exact ⟨(f, b), by simp only [rateSlopes, hf, hb, hr]; rfl, fun σ => ⟨hfv σ, hbv σ⟩⟩

variable {own : Option (Expr Exact) × Option (Expr Exact)}

lemma differenceOf_sum {a b : Option (Expr Exact)} {x y : ℝ} (gap : Gap) (hx : SumOr σ a x) (hy : TermOr σ b y) :
    SumOr σ (differenceOf gap a b) (x - y) := by
  cases b with
  | none =>
    rw [show y = 0 from hy, sub_zero]
    cases a <;> exact hx
  | some b =>
    cases a with
    | none =>
      rw [show x = 0 from hx, zero_sub]
      exact (hy.1.neg hy.2).value
    | some a => exact value_minus hx hy.1 fun _ => hy.2

variable {sum : Expr Exact} {e : Option (Expr Exact)} {s x : ℝ}

lemma plusTerm_value (hs : sum.value σ = some s) (hx : TermOr σ e x) : (plusTerm sum e).value σ = some (s + x) := by
  cases e with
  | none => rw [plusTerm, hs, show x = 0 from hx, add_zero]
  | some e => exact value_add hs hx.1

lemma lessTerm_value (hs : sum.value σ = some s) (hx : TermOr σ e x) : (lessTerm sum e).value σ = some (s - x) := by
  cases e with
  | none => rw [lessTerm, hs, show x = 0 from hx, sub_zero]
  | some e => exact value_sub hs hx.1

lemma startsSigned_full {x : Exact} (hx : 0 ≤ x.toReal) : (Expr.full x).startsSigned = false := by
  change Arithmetic.isNegative x = false
  rw [Bool.eq_false_iff, Ne, Exact.isNegative_iff, not_lt]
  exact hx

variable {last : Option (Expr Exact)} {fraction : Exact}

lemma lastTerm_term {z : ℝ} (hf : 0 ≤ fraction.toReal) (hz : SumOr σ last z) :
    TermOr σ (last.map fun e => .full fraction * .group e) (fraction.toReal * z) := by
  cases last with
  | none =>
    rw [show z = 0 from hz, mul_zero]
    rfl
  | some e => exact ⟨(Factor.full fraction).term.mul (Factor.group hz).term, startsSigned_full hf⟩

lemma addSlopes_value {s x y z : ℝ} (hf : 0 ≤ fraction.toReal)
    (hs : sum.value σ = some s) (hx : TermOr σ own.1 x) (hy : TermOr σ own.2 y) (hz : SumOr σ last z) :
    (addSlopes sum fraction own last).value σ = some (s + (x - y - fraction.toReal * z)) := by
  rw [addSlopes, lessTerm_value (lessTerm_value (plusTerm_value hs hx) hy) (lastTerm_term hf hz), ← add_sub_assoc,
    ← add_sub_assoc]

end Slopes

/-! ## The derivative by one mass fraction -/

section Derivative
variable {n : ℕ} {sp : List (Species Exact)} {r : Reaction ℕ Exact}

/-- The share of the third bodies in the derivative, for one unit of the net rate. -/
def colliderShare (r : Reaction ℕ Exact) (n j : ℕ) (fraction : ℝ) : ℝ :=
  if r.thirdBody = true ∧ r.efficiencies ≠ [] then
    (efficiencyOf r j).toReal - (efficiencyOf r (n - 1)).toReal * fraction
  else 0

/-- The share of third bodies with efficiencies. The four ways to print it differ in the text only,
not in the value. -/
lemma addColliderShare_efficiencies (sp : List (Species Exact))
    (hb : r.falloff = true ∧ r.collider = none ∨ r.thirdBody = true) (he : r.efficiencies ≠ [])
    (sum : Expr Exact) (j : ℕ) (weight fraction : Exact) :
    ∃ e, addColliderShare sum sp r j weight fraction = .ok e ∧
      ∀ σ s, sum.value σ = some s → e.value σ = some (s + ((efficiencyOf r j).toReal
        - (efficiencyOf r (sp.length - 1)).toReal * fraction.toReal) * σ.var "pres_mod_temp") := by
  have hc : ((r.falloff && r.collider.isNone || r.thirdBody) && !r.efficiencies.isEmpty) = true := by
    simpa using ⟨hb, he⟩
  simp only [addColliderShare]
  generalize hα : (if Arithmetic.isZero (efficiencyOf r (sp.length - 1)) then efficiencyOf r j
    else efficiencyOf r j - efficiencyOf r (sp.length - 1) * fraction) = α
  have hv : α.toReal = (efficiencyOf r j).toReal - (efficiencyOf r (sp.length - 1)).toReal * fraction.toReal := by
    rw [← hα]
    split
    · next hz => rw [(Exact.isZero_iff _).1 hz, zero_mul, sub_zero]
    · simp
  rw [← hv]
  have ht : ∀ σ : Memory, Term σ (.var "pres_mod_temp") (σ.var "pres_mod_temp") :=
    fun σ => (Factor.var "pres_mod_temp").term
  simp only [Exact.isZero_iff, Exact.eq_iff, Exact.toReal_one, Exact.toReal_neg]
  split_ifs with h₀ h₁ h₂
  · exact ⟨sum, rfl, fun σ s hs => by rw [hs, h₀, zero_mul, add_zero]⟩
  · exact ⟨_, rfl, fun σ s hs => by rw [value_add hs (ht σ), h₁, one_mul]⟩
  · exact ⟨_, rfl, fun σ s hs => by rw [value_sub hs (ht σ), h₂, neg_one_mul, sub_eq_add_neg]⟩
  · exact ⟨_, rfl, fun σ s hs => value_add hs ((Factor.full α).term.mul (ht σ))⟩

lemma addColliderShare_ok (h : SimpleReaction n r) (sum : Expr Exact) (j : ℕ) (weight fraction : Exact) :
    ∃ e, addColliderShare sum sp r j weight fraction = .ok e ∧ ∀ σ s, sum.value σ = some s → e.value σ =
        some (s + colliderShare r sp.length j fraction.toReal * σ.var "pres_mod_temp") := by
  unfold colliderShare
  by_cases hb : r.thirdBody = true ∧ r.efficiencies ≠ []
  · simp only [if_pos hb]
    exact addColliderShare_efficiencies sp (.inr hb.1) hb.2 sum j weight fraction
  · have hc : ((r.falloff && r.collider.isNone || r.thirdBody) && !r.efficiencies.isEmpty) = false := by
      simpa [h.falloff] using hb
    simp only [addColliderShare, hc, if_neg hb]
    simp only [h.collider]
    exact ⟨sum, rfl, fun σ s hs => by rw [hs, zero_mul, add_zero]⟩

variable {last : Species Exact} {weight : Exact}

/-- What the emitted derivative computes from the values that its parts have in memory; `share` is that of
the third bodies. -/
def derivativeValue (k : Ranks) (r : Reaction ℕ Exact) (n j : ℕ) (fraction share : ℝ) (σ : Memory) : ℝ :=
  σ.var "j_temp" * (1 - fraction) + share * σ.var "pres_mod_temp"
    + (if r.isModified then σ (.cell "pres_mod" (k.modified.map Int.ofNat)) else 1) *
      (netSlope r (σ.var "kf") (σ.var "kr") (σ.row "conc") j
        - fraction * netSlope r (σ.var "kf") (σ.var "kr") (σ.row "conc") (n - 1))

lemma speciesDerivative_of_share (h : ArrheniusReaction n r) (k : Ranks) (j : ℕ)
    {share : ℝ} (hls : sp.getLast? = some last) (hw : 0 < weight.toReal)
    (hl : 0 < last.weight.toReal)
    (hsh : ∀ sum, ∃ e, addColliderShare sum sp r j weight (.measure (weight.toReal / last.weight.toReal)) = .ok e ∧
      ∀ σ s, sum.value σ = some s → e.value σ = some (s + share * σ.var "pres_mod_temp")) :
    ∃ e, speciesDerivative sp k r j weight = .ok e ∧ ∀ σ : Memory,
      e.value σ = some (derivativeValue k r sp.length j (weight.toReal / last.weight.toReal) share σ) := by
  obtain ⟨own, how, ho⟩ := rateSlopes_ok h j
  obtain ⟨far, hfa, hf⟩ := rateSlopes_ok h (sp.length - 1)
  set fraction : Exact := .measure (weight.toReal / last.weight.toReal) with hfr
  have hp : 0 ≤ fraction.toReal := (div_pos hw hl).le
  obtain ⟨sum, hsm, hs⟩ := hsh (.var "j_temp" * .full (Arithmetic.unit - fraction))
  have hst : ∀ σ : Memory, (Expr.var "j_temp" * .full (Arithmetic.unit - fraction)).value σ =
      some (σ.var "j_temp" * (1 - fraction.toReal)) := fun σ => by
    have := ((Factor.var (σ := σ) "j_temp").term.mul (Factor.full (Arithmetic.unit - fraction)).term).value
    rwa [Exact.toReal_sub, Exact.toReal_unit] at this
  have hsl : ∀ σ : Memory, SumOr σ (lastSlope far) _ := fun σ =>
    differenceOf_sum _ (hf σ).1.sum (hf σ).2
  simp only [speciesDerivative, lastEntry_eq_ok.2 hls, ok_bind, Exact.div_ok hl.ne', ← hfr, hsm, how, hfa,
    derivativeValue]
  cases hm : r.isModified
  · refine ⟨_, rfl, fun σ => ?_⟩
    rw [addSlopes_value hp (hs σ _ (hst σ)) (ho σ).1 (ho σ).2 (hsl σ)]
    simp only [Bool.false_eq_true, if_false, one_mul]
    rfl
  · have hi : ∀ σ : Memory, SumOr σ (modifiedSlopes fraction own (lastSlope far))
        (netSlope r (σ.var "kf") (σ.var "kr") (σ.row "conc") j - weight.toReal / last.weight.toReal *
          netSlope r (σ.var "kf") (σ.var "kr") (σ.row "conc") (sp.length - 1)) := fun σ =>
      differenceOf_sum _ (differenceOf_sum _ (ho σ).1.sum (ho σ).2) (lastTerm_term hp (hsl σ))
    cases hms : modifiedSlopes fraction own (lastSlope far) with
    | none =>
      refine ⟨sum, rfl, fun σ => ?_⟩
      have hz := hi σ
      rw [hms] at hz
      rw [hs σ _ (hst σ), hz, mul_zero, add_zero]
      rfl
    | some e =>
      refine ⟨_, rfl, fun σ => ?_⟩
      have hv := hi σ
      rw [hms] at hv
      exact value_add (hs σ _ (hst σ)) ((Factor.element "pres_mod" _).term.mul (Factor.group hv).term)

lemma speciesDerivative_ok (h : SimpleReaction n r) (k : Ranks) (j : ℕ)
    (hls : sp.getLast? = some last) (hw : 0 < weight.toReal)
    (hl : 0 < last.weight.toReal) : ∃ e, speciesDerivative sp k r j weight = .ok e ∧ ∀ σ : Memory,
      e.value σ = some (derivativeValue k r sp.length j (weight.toReal / last.weight.toReal)
        (colliderShare r sp.length j (weight.toReal / last.weight.toReal)) σ) :=
  speciesDerivative_of_share h.arrhenius k j hls hw hl fun sum => addColliderShare_ok h sum j weight _

end Derivative

/-! ## The part common to all species -/

section Common
variable {σ : Memory} {n : ℕ} {sp : List (Species Exact)} {r : Reaction ℕ Exact}

/-- The order in which a rate depends on the third bodies, as the derivative counts it:
by the list of efficiencies alone. -/
def countedOrder (r : Reaction ℕ Exact) : ℝ := if r.efficiencies = [] then 0 else 1

def Orderless (r : Reaction ℕ Exact) : Prop :=
  r.efficiencies = [] ∧ r.reactants = [] ∧ (r.reversible = true → r.products = [])

variable {rate : Expr Exact} {order : Exact}

lemma orderedRate_termOr {v : ℝ} (ho : 0 ≤ order.toReal) (hv : Factor σ rate v) (hs : rate.startsSigned = false) :
    TermOr σ (orderedRate order rate) (order.toReal * v) := by
  simp only [orderedRate, Exact.isZero_iff, Exact.eq_iff, Exact.toReal_one]
  split_ifs with h₀ h₁
  · rw [h₀, zero_mul]
    rfl
  · rw [h₁, one_mul]
    exact ⟨hv.term, hs⟩
  · exact ⟨(Factor.plain (Arithmetic.pointed order)).term.mul hv.term, startsSigned_full ho⟩

lemma orderedRate_eq_none : orderedRate order rate = none ↔ order.toReal = 0 := by
  simp only [orderedRate, Exact.isZero_iff]
  split_ifs with h₀ h₁ <;> simp [h₀]

lemma thirdBodyOrder_simple (hf : r.falloff = false) : (thirdBodyOrder r).toReal = countedOrder r := by
  rw [thirdBodyOrder, hf, countedOrder]
  cases r.efficiencies <;> simp

lemma thirdBodyOrder_falloff (hf : r.falloff = true) : (thirdBodyOrder r).toReal = 0 := by
  simp [thirdBodyOrder, hf]

lemma thirdBodyOrder_nonneg (r : Reaction ℕ Exact) : 0 ≤ (thirdBodyOrder r).toReal := by
  rw [thirdBodyOrder]
  split <;> norm_num

lemma orderedRate_side {sp : List ℕ} (h : WholeSide sp nu)
    (rate : Expr Exact) {v : ℝ} (hv : Factor σ rate v) (hs : rate.startsSigned = false) :
    TermOr σ (orderedRate (thirdBodyOrder r + Arithmetic.sum nu) rate)
      (((thirdBodyOrder r).toReal + totalOrder (sp.zip nu)) * v) ∧
    (orderedRate (thirdBodyOrder r + Arithmetic.sum nu) rate = none ↔ (thirdBodyOrder r).toReal = 0 ∧ sp = []) := by
  have hb := thirdBodyOrder_nonneg r
  have hsd := totalOrder_nonneg (sp.zip nu)
  have ho : (thirdBodyOrder r + Arithmetic.sum nu).toReal = (thirdBodyOrder r).toReal + totalOrder (sp.zip nu) := by
    rw [Exact.toReal_add, h.sum_eq]
  constructor
  · rw [← ho]
    exact orderedRate_termOr (ho ▸ add_nonneg hb hsd) hv hs
  · rw [orderedRate_eq_none, ho, ← h.totalOrder_eq_zero]
    constructor
    · intro hz
      constructor <;> linarith
    · rintro ⟨hz, hz'⟩
      rw [hz, hz', add_zero]

def Uncounted (r : Reaction ℕ Exact) : Prop :=
  (thirdBodyOrder r).toReal = 0 ∧ r.reactants = [] ∧ (r.reversible = true → r.products = [])

lemma orderless_iff (hf : r.falloff = false) : Uncounted r ∧ (r.falloff && hasColliders r) = false ↔ Orderless r := by
  rw [Orderless, Uncounted, thirdBodyOrder_simple hf, countedOrder, hf]
  split <;> simp_all

/-- The rates times their orders, as `orderedDifference` writes them. -/
def orderedValue (k : Ranks) (r : Reaction ℕ Exact) (σ : Memory) : ℝ :=
  ((thirdBodyOrder r).toReal + totalOrder (r.reactants.zip r.reactantNu)) * σ.row "fwd_rates" k.all
    - (if r.reversible then ((thirdBodyOrder r).toReal + totalOrder (r.products.zip r.productNu)) *
        σ.row "rev_rates" k.reverse else 0)

/-- The difference is an optional sum, which is missing if neither direction counts. -/
lemma orderedDifference_eq (h : ArrheniusReaction n r) (k : Ranks) : ∃ d, orderedDifference k r = d.getD .hole ∧
    (d = none ↔ Uncounted r) ∧ ∀ σ : Memory, SumOr σ d (orderedValue k r σ) := by
  have hf := fun σ : Memory =>
    orderedRate_side (r := r) h.reactants k.forward (Factor.cell (σ := σ) "fwd_rates" k.all) rfl
  have hb := fun σ : Memory =>
    orderedRate_side (r := r) h.products k.backward (Factor.cell (σ := σ) "rev_rates" k.reverse) rfl
  unfold orderedDifference orderedValue Uncounted
  dsimp only
  generalize orderedRate (thirdBodyOrder r + Arithmetic.sum r.reactantNu) k.forward = f at hf
  generalize orderedRate (thirdBodyOrder r + Arithmetic.sum r.productNu) k.backward = b at hb
  cases r.reversible with
  | false => exact ⟨f, rfl, by simpa using (hf 0).2, fun σ => by simpa using (hf σ).1.sum⟩
  | true =>
    simp only [if_true, true_imp_iff]
    cases b with
    | none =>
      refine ⟨f, rfl, ?_, fun σ => ?_⟩
      · have := (hb 0).2.1 rfl
        rw [(hf 0).2]
        tauto
      · rw [show _ * _ = (0 : ℝ) from (hb σ).1, sub_zero]
        exact (hf σ).1.sum
    | some e =>
      refine ⟨some (f.getD .hole - e), rfl, ?_, fun σ => value_getD_sub (hf σ).1.sum (hb σ).1.1⟩
      have := (hb 0).2
      simp only [reduceCtorEq, false_iff] at this ⊢
      tauto

/-- The net rate of a reaction, from the rates in memory. -/
noncomputable abbrev netValue (k : Ranks) (r : Reaction ℕ Exact) (σ : Memory) : ℝ :=
  σ.row "fwd_rates" k.all - if r.reversible then σ.row "rev_rates" k.reverse else 0

lemma net_factor (k : Ranks) (r : Reaction ℕ Exact) (σ : Memory) : Factor σ (k.net r) (netValue k r σ) := by
  unfold netValue Ranks.net Ranks.difference
  cases r.reversible
  · rw [if_neg (by decide), if_neg (by decide), sub_zero]
    exact Factor.cell "fwd_rates" k.all
  · exact Factor.group (value_sub (Factor.cell "fwd_rates" k.all).value (Factor.cell "rev_rates" k.reverse).term)

/-- What the statement for `j_temp` computes, where it has a value. -/
def commonValue (k : Ranks) (r : Reaction ℕ Exact) (σ : Memory) : ℝ := -σ.var "mw_avg" * σ.var "rho_inv" *
    (if r.isModified then σ (.cell "pres_mod" (k.modified.map Int.ofNat)) else 1) *
    (orderedValue k r σ + if r.falloff && hasColliders r then σ.var "pres_mod_temp" else 0)

open Classical in
/-- The common part has a value unless nothing stands in its parentheses. -/
lemma commonDerivative_run (h : ArrheniusReaction n r) (k : Ranks) (σ : Memory) :
    (commonDerivative k r).run σ = if Uncounted r ∧ (r.falloff && hasColliders r) = false then none else
      some (σ.setVar "j_temp" (commonValue k r σ)) := by
  have hs : Term σ (-Expr.var "mw_avg" * .var "rho_inv") (-σ.var "mw_avg" * σ.var "rho_inv") :=
    ((Factor.var "mw_avg").neg rfl).term.mul (Factor.var "rho_inv").term
  have hg : ∀ e : Expr Exact, (if r.isModified then -Expr.var "mw_avg" * .var "rho_inv" * k.modification * .group e
      else -Expr.var "mw_avg" * .var "rho_inv" * .group e).value σ = (e.value σ).map (-σ.var "mw_avg" * σ.var "rho_inv" *
        (if r.isModified then σ (.cell "pres_mod" (k.modified.map Int.ofNat)) else 1) * ·) := by
    intro e
    cases r.isModified
    · simpa using value_mul_group hs
    · exact value_mul_group (hs.mul (Factor.element _ _).term)
  have hp := (Factor.var (σ := σ) "pres_mod_temp").term
  unfold commonDerivative commonValue
  dsimp only
  obtain ⟨d, hd, hu, hv⟩ := orderedDifference_eq h k
  rw [run_setVar_eq, hg, hd]
  cases r.falloff && hasColliders r with
  | true => simp [value_getD_add (hv σ) hp]
  | false =>
    cases d with
    | none => simp only [hu.1 rfl, Bool.false_eq_true, if_false, true_and, if_true]; rfl
    | some e => simp [mt hu.2, show e.value σ = _ from hv σ]

lemma needsModificationSlope_iff (h : SimpleReaction n r) :
    needsModificationSlope r = true ↔ r.thirdBody = true ∧ r.efficiencies ≠ [] := by
  simp [needsModificationSlope, Reaction.isModified, hasColliders, h.falloff, h.collider]

open Classical in
/-- The common part, with the net rate kept for the third bodies where it is needed. -/
lemma commonItems_run (h : SimpleReaction n r) (k : Ranks) :
    ∃ steps, commonItems k r = .ok steps ∧ ∀ σ : Memory, ∃ x, runSteps σ steps = (if Orderless r then none else
        some ((σ.setVar "pres_mod_temp" x).setVar "j_temp" (commonValue k r σ))) ∧
      (r.thirdBody = true ∧ r.efficiencies ≠ [] → x = netValue k r σ) := by
  have hf : ∀ (σ : Memory) x, commonValue k r (σ.setVar "pres_mod_temp" x) = commonValue k r σ :=
    fun σ x => by simp [commonValue, orderedValue, h.falloff]
  have hl : ∀ σ : Memory, runSteps σ [commonDerivative k r] = if Orderless r then none else
      some (σ.setVar "j_temp" (commonValue k r σ)) := fun σ => by
    simp only [runSteps, commonDerivative_run h.arrhenius, orderless_iff h.falloff]
    split <;> rfl
  cases hn : needsModificationSlope r
  -- where `pres_mod_temp` is not set, it keeps what it held, and no derivative reads it
  · refine ⟨[commonDerivative k r], by simp only [commonItems, hn, h.falloff]; rfl, fun σ =>
      ⟨σ.var "pres_mod_temp", ?_, fun hc => ?_⟩⟩
    · rw [hl, setVar_self]
    · rw [(needsModificationSlope_iff h).2 hc] at hn
      cases hn
  · refine ⟨[.setVar "pres_mod_temp" (k.net r), commonDerivative k r],
      by simp only [commonItems, hn, h.falloff, modificationStart]; rfl, fun σ => ⟨_, ?_, fun _ => rfl⟩⟩
    rw [runSteps, run_setVar _ (net_factor k r σ).value, Option.bind_some, hl, hf]

lemma reverseConstantItems_run (h : ArrheniusReaction n r) : ∃ items, reverseConstantItems r = .ok items ∧
    ∀ σ : Memory, σ.var "kf" = forwardConstant r (σ.var "T") (σ.var "logT") → ∃ kr,
      runItems σ items = some (σ.setVar "kr" kr) ∧
      (r.reversible = true → kr = reverseFrom r (σ.var "T") (σ.var "logT") (σ.var "Kc")) := by
  rcases h.reverse with hn | ⟨a, b, e, rest, he, ha⟩
  · cases hr : r.reversible
    · refine ⟨[], by simp only [reverseConstantItems, hn, hr]; rfl, fun σ _ => ⟨σ.var "kr", ?_, nofun⟩⟩
      rw [runItems, setVar_self]
    · refine ⟨_, by simp only [reverseConstantItems, hn, hr]; rfl, fun σ hk => ⟨_, ?_, fun _ => rfl⟩⟩
      have hq := ((Factor.var (σ := σ) "kf").term.div (Factor.var "Kc")).value
      rw [runItems, Item.run, run_setVar "kr" hq, reverseFrom, hn, hk]
      rfl
  · obtain ⟨kr, hkr, hrt⟩ := Rate.arrhenius_ok ha b e
    refine ⟨_, by simp only [reverseConstantItems, he, Rate.arrheniusOf_cons, hkr]; rfl,
      fun σ _ => ⟨_, ?_, fun _ => rfl⟩⟩
    rw [runItems, Item.run, run_setVar "kr" (hrt σ).value, reverseFrom, he]
    rfl

lemma rateConstants_run (h : ArrheniusReaction n r) : ∃ items, rateConstants r = .ok items ∧ ∀ σ : Memory, ∃ kr,
      runItems σ items = some ((σ.setVar "kf" (forwardConstant r (σ.var "T") (σ.var "logT"))).setVar "kr" kr) ∧
      (r.reversible = true → kr = reverseFrom r (σ.var "T") (σ.var "logT") (σ.var "Kc")) := by
  obtain ⟨kf, hkf, hft⟩ := Rate.arrhenius_ok h.factor r.b r.E
  obtain ⟨items, hi, hrun⟩ := reverseConstantItems_run h
  refine ⟨.step (.setVar "kf" kf) :: items,
    by simp only [rateConstants, forwardConstantItems, h.plog, h.chebyshev, hkf, hi]; rfl, fun σ => ?_⟩
  obtain ⟨kr, hk, hkr⟩ := hrun (σ.setVar "kf" (forwardConstant r (σ.var "T") (σ.var "logT"))) (by simp)
  refine ⟨kr, ?_, fun hr => by simpa using hkr hr⟩
  rw [runItems, Item.run, run_setVar "kf" (hft σ).value]
  exact hk

lemma equilibriumPart_run (h : ArrheniusReaction sp.length r) :
    ∃ items, (if r.reversible && r.reverse.isEmpty then Rate.equilibriumItemsSorted sp r
        else pure []) = .ok items ∧
      ∀ σ : Memory, ∃ Kc, runItems σ items = some (σ.setVar "Kc" Kc) ∧
        (r.reversible = true → r.reverse = [] → Kc =
          Rate.equilibriumConstant (memberAt sp) r (σ.var "T") (σ.var "logT") (σ.var "Kc")) := by
  cases hn : r.reversible && r.reverse.isEmpty
  · refine ⟨[], rfl, fun σ => ⟨σ.var "Kc", ?_, fun hr hnl => ?_⟩⟩
    · rw [runItems, setVar_self]
    · simp [hr, hnl] at hn
  · obtain ⟨items, hi, hrn⟩ := Rate.equilibriumItemsSorted_run
      (Reaction.Side.aligned h.reactants.toSide h.products.toSide) h.getElem?
    exact ⟨items, hi, fun σ => ⟨_, hrn σ, fun _ _ => rfl⟩⟩

/-- All statements before the derivatives by single species: the equilibrium constant, the part
common to all species, and the rate constants. -/
lemma compositionStart_of_common (h : ArrheniusReaction sp.length r) {k : Ranks}
    {common : List (Step Exact)} (hc : commonItems k r = .ok common) :
    ∃ items, compositionStart sp k r = .ok items ∧ ∀ σ : Memory, ∃ Kc,
      (runSteps (σ.setVar "Kc" Kc) common = none → runItems σ items = none) ∧
      ∀ τ, runSteps (σ.setVar "Kc" Kc) common = some τ →
        τ.var "T" = σ.var "T" → τ.var "logT" = σ.var "logT" → τ.var "Kc" = Kc → ∃ kr,
          runItems σ items = some ((τ.setVar "kf" (forwardConstant r (σ.var "T") (σ.var "logT"))).setVar "kr" kr) ∧
          (r.reversible = true → kr = reverseConstant sp r (σ.var "T") (σ.var "logT") (σ.var "Kc")) := by
  obtain ⟨equilibrium, he, heq⟩ := equilibriumPart_run h
  obtain ⟨constants, hcn, hkn⟩ := rateConstants_run h
  refine ⟨equilibrium ++ common.map Item.step ++ constants, ?_, fun σ => ?_⟩
  · unfold compositionStart
    cases hn : r.reversible && r.reverse.isEmpty <;>
      simp only [hn, if_true, Bool.false_eq_true, if_false] at he ⊢ <;>
      rw [he, ok_bind, hc, ok_bind, hcn] <;> rfl
  · obtain ⟨Kc, hKrun, hKc⟩ := heq σ
    refine ⟨Kc, fun hnn => ?_, fun τ hτ hT hlogT hK => ?_⟩
    · rw [runItems_append, runItems_append, hKrun, Option.bind_some, runItems_steps, hnn]
      rfl
    · obtain ⟨kr, hk, hkr⟩ := hkn τ
      rw [hT, hlogT] at hk hkr
      refine ⟨kr, ?_, fun hr => ?_⟩
      · rw [runItems_append, runItems_append, hKrun, Option.bind_some, runItems_steps, hτ, Option.bind_some, hk]
      · rw [hkr hr, reverseConstant, hK]
        rcases h.reverse with hnl | ⟨a, b, e, rest, hex, -⟩
        · rw [hKc hr hnl]
        · simp only [reverseFrom, hex]

open Classical in
lemma compositionStart_run (h : SimpleReaction sp.length r) (k : Ranks) :
    ∃ items, compositionStart sp k r = .ok items ∧ ∀ σ : Memory, ∃ Kc x kr,
      runItems σ items = (if Orderless r then none else some
        (((((σ.setVar "Kc" Kc).setVar "pres_mod_temp" x).setVar "j_temp" (commonValue k r σ)).setVar "kf"
          (forwardConstant r (σ.var "T") (σ.var "logT"))).setVar "kr" kr)) ∧
      (r.thirdBody = true ∧ r.efficiencies ≠ [] → x = netValue k r σ) ∧
      (r.reversible = true → kr = reverseConstant sp r (σ.var "T") (σ.var "logT") (σ.var "Kc")) := by
  obtain ⟨common, hcm, hcr⟩ := commonItems_run h k
  obtain ⟨items, hi, hrn⟩ := compositionStart_of_common h.arrhenius hcm
  refine ⟨items, hi, fun σ => ?_⟩
  obtain ⟨Kc, hf, hr⟩ := hrn σ
  obtain ⟨x, hxr, hx⟩ := hcr (σ.setVar "Kc" Kc)
  have hcommonValue : commonValue k r (σ.setVar "Kc" Kc) = commonValue k r σ := by
    simp [commonValue, orderedValue]
  have hx' : r.thirdBody = true ∧ r.efficiencies ≠ [] → x = netValue k r σ :=
    fun hc => by simpa [netValue] using hx hc
  rw [hcommonValue] at hxr
  by_cases ho : Orderless r
  · rw [if_pos ho] at hxr
    exact ⟨Kc, x, _, by rw [if_pos ho, hf hxr], hx', fun _ => rfl⟩
  · rw [if_neg ho] at hxr
    obtain ⟨kr, hk, hkr⟩ := hr _ hxr (by simp) (by simp) (by simp)
    exact ⟨Kc, x, kr, by rw [if_neg ho, hk], hx', hkr⟩

end Common

/-! ## Comparison with the derivative of the emitted rates -/

section Comparison
variable {m : Mixture} {r : Reaction ℕ Exact}

/-- The memory of the Jacobian function: the state of the mixture, the rates that the
rate functions have computed, and, should the reaction change no species, the same
content of `Kc` that they started from. -/
structure Prepared (m : Mixture) (reactions : List (Reaction ℕ Exact)) (i : ℕ) (r : Reaction ℕ Exact)
    (q : Rates) (μ σ : Memory) : Prop where
  temperature : σ.var "T" = m.T
  logarithm : σ.var "logT" = Real.log m.T
  meanWeight : σ.var "mw_avg" = m.meanWeight
  volume : σ.var "rho_inv" = 1 / m.density
  concentrations : ∀ s < m.count, σ.row "conc" s = m.concentration s
  forward : σ.row "fwd_rates" i = q.forward
  reverse : r.reversible = true → σ.row "rev_rates" (Emit.reverseRank reactions i) = q.reverse
  modification : r.isModified = true → σ.row "pres_mod" ((reactions.take i).countP (·.isModified)) = q.modification
  constant : Rate.Balanced r → σ.var "Kc" = μ.var "Kc"

lemma netSlope_congr {kf kr kr' : ℝ} {c c' : ℕ → ℝ} (s : ℕ)
    (hk : r.reversible = true → kr = kr') (hc : ∀ s ∈ Rate.participants r, c s = c' s) :
    netSlope r kf kr c s = netSlope r kf kr' c' s := by
  have hrc : slope c s (r.reactants.zip r.reactantNu) = slope c' s (r.reactants.zip r.reactantNu) :=
    slope_congr s fun t ht => hc _ ((Rate.mem_participants r).2 (.inl (of_mem_zip ht).1))
  have hp : slope c s (r.products.zip r.productNu) = slope c' s (r.products.zip r.productNu) :=
    slope_congr s fun t ht => hc _ ((Rate.mem_participants r).2 (.inr (of_mem_zip ht).1))
  unfold netSlope
  rw [hrc, hp]
  split
  · next hr => rw [hk hr]
  · rfl

/-- The derivative of a rate of progress in the terms of the emitted expression. `q` is the
modification, `F` the net rate, `S` the net rate with each direction times its order, `x`
and `y` the slopes by the two concentrations, and `α` and `β` the two efficiencies. -/
lemma derivative_terms {W L ρ w M q F S x y α β : ℝ} (hW : W ≠ 0) (hL : L ≠ 0) (hρ : ρ ≠ 0) (hM : w * M = ρ) :
    W / ρ * ((-(w * (1 / W - 1 / L)) * (q - M) + ρ / W * (α - 1) + -(ρ / L) * (β - 1)) * F
        + q * (-(w * (1 / W - 1 / L)) * S + ρ / W * x + -(ρ / L) * y)) =
      -w * (1 / ρ) * q * (F + S) * (1 - W / L) + (α - β * (W / L)) * F + q * (x - W / L * y) := by
  rw [← hM] at hρ ⊢
  have hw : w ≠ 0 := left_ne_zero_of_mul hρ
  have hM' : M ≠ 0 := right_ne_zero_of_mul hρ
  field_simp
  ring

/-- The same without a modification that depends on the composition. -/
lemma derivative_terms_plain {W L ρ w q S x y : ℝ} (hW : W ≠ 0) (hL : L ≠ 0) (hρ : ρ ≠ 0) :
    W / ρ * (q * (-(w * (1 / W - 1 / L)) * S + ρ / W * x + -(ρ / L) * y)) =
      -w * (1 / ρ) * q * S * (1 - W / L) + q * (x - W / L * y) := by
  field_simp
  ring

/-- The excess of the emitted derivative: efficiencies are counted for a reaction
without third body too. -/
def miscounted (m : Mixture) (r : Reaction ℕ Exact) (q : Rates) (j : ℕ) : ℝ :=
  if r.thirdBody = false ∧ r.efficiencies ≠ [] then
    m.meanWeight / m.density * (1 - m.weight j / m.weight (m.count - 1)) * (q.forward - q.reverse)
  else 0

lemma emitted_terms {before x y : ℝ} {j : ℕ} (hW : m.weight j ≠ 0)
    (hL : m.weight (m.count - 1) ≠ 0) (hρ : m.density ≠ 0) :
    let q := ratesAt r before m
    let fraction := m.weight j / m.weight (m.count - 1)
    colliderShare r m.count j fraction * (q.forward - q.reverse) + q.modification * (x - fraction * y)
        - m.meanWeight * (1 / m.density) * q.modification *
          (countedOrder r * (q.forward - q.reverse) + orderedRates r q) * (1 - fraction) =
      m.weight j / m.density * (thirdBodySlope m r q j * (q.forward - q.reverse)
          + q.modification * m.fractionSlope j (orderedRates r q) x y)
        - miscounted m r q j := by
  intro q fraction
  have hM : m.meanWeight * (m.P / ((gasConstant : Exact).toReal * m.T)) = m.density := by
    rw [Mixture.density]
    ring
  unfold thirdBodySlope Mixture.fractionSlope miscounted colliderShare countedOrder
  cases hb : r.thirdBody
  · -- the modification is one, so only the slopes by concentrations are left
    have hq : q.modification = 1 := by simp [q, ratesAt, hb]
    simp only [Bool.false_eq_true, if_false, false_and, zero_mul, zero_add, true_and, hq]
    rw [derivative_terms_plain hW hL hρ]
    by_cases he : r.efficiencies = []
    · simp only [he, ne_eq, not_true_eq_false, if_true, if_false, fraction]
      ring
    · simp only [he, ne_eq, not_false_eq_true, if_true, if_false, fraction]
      ring
  · simp only [if_true, true_and, Bool.true_eq_false, false_and, if_false, sub_zero]
    rw [derivative_terms hW hL hρ hM]
    by_cases he : r.efficiencies = []
    · -- all molecules count alike: the modification is the total concentration
      have hq : q.modification = m.P / ((gasConstant : Exact).toReal * m.T) := by
        simp [q, ratesAt, hb, thirdBodies, he]
      have ho : ∀ s, (efficiencyOf r s).toReal = 1 := fun s => by simp [efficiencyOf, he]
      have hc : m.meanWeight * (1 / m.density) * q.modification = 1 := by
        rw [hq, mul_right_comm, hM, mul_one_div_cancel hρ]
      rw [ho, ho]
      simp only [he, ne_eq, not_true_eq_false, if_true, if_false, fraction]
      linear_combination ((1 - m.weight j / m.weight (m.count - 1)) * (q.forward - q.reverse)) * hc
    · simp only [he, ne_eq, not_false_eq_true, if_true, if_false, fraction]
      ring

lemma ranksAt_modified {rs : List (Reaction ℕ Exact)} {i : ℕ} (hi : rs[i]? = some r) (hm : r.isModified = true) :
    (ranksAt rs i).modified = some ((rs.take i).countP (·.isModified)) := by
  simp [ranksAt, hi, hm]

section Values
variable {rs : List (Reaction ℕ Exact)} {i : ℕ} {μ σ : Memory} {before : ℝ}

lemma Prepared.modification_eq (h : Prepared m rs i r (ratesAt r before m) μ σ)
    (hi : rs[i]? = some r) (hr : SimpleReaction m.count r) :
    (if r.isModified then σ (.cell "pres_mod" ((ranksAt rs i).modified.map Int.ofNat)) else 1) =
      (ratesAt r before m).modification := by
  cases hm : r.isModified
  · have hb : r.thirdBody = false := by simpa [Reaction.isModified, hr.falloff] using hm
    simp [ratesAt, hb]
  · rw [ranksAt_modified hi hm]
    exact h.modification hm

variable {q : Rates}

lemma Prepared.net_eq_of (h : Prepared m rs i r q μ σ) (hq : r.reversible = false → q.reverse = 0) :
    netValue (ranksAt rs i) r σ = q.forward - q.reverse := by
  rw [netValue, ← h.forward]
  congr 1
  cases hr : r.reversible with
  | false => rw [hq hr, if_neg Bool.false_ne_true]
  | true => exact h.reverse hr

lemma ratesAt_reverse (hr : r.reversible = false) : (ratesAt r before m).reverse = 0 := by
  simp [ratesAt, hr]

lemma Prepared.orderedValue_eq (h : Prepared m rs i r q μ σ) (hq : r.reversible = false → q.reverse = 0) :
    orderedValue (ranksAt rs i) r σ = (thirdBodyOrder r).toReal * (q.forward - q.reverse) + orderedRates r q := by
  have hb : (if r.reversible then ((thirdBodyOrder r).toReal + totalOrder (r.products.zip r.productNu)) *
      σ.row "rev_rates" (ranksAt rs i).reverse else 0) =
      ((thirdBodyOrder r).toReal + totalOrder (r.products.zip r.productNu)) * q.reverse := by
    cases hr : r.reversible with
    | false => rw [hq hr, mul_zero, if_neg Bool.false_ne_true]
    | true => exact congrArg _ (h.reverse hr)
  rw [orderedValue, hb, show σ.row "fwd_rates" (ranksAt rs i).all = _ from h.forward, orderedRates]
  ring

lemma Prepared.commonValue_eq (h : Prepared m rs i r (ratesAt r before m) μ σ)
    (hi : rs[i]? = some r) (hr : SimpleReaction m.count r) :
    commonValue (ranksAt rs i) r σ = -m.meanWeight * (1 / m.density) * (ratesAt r before m).modification *
      (countedOrder r * ((ratesAt r before m).forward - (ratesAt r before m).reverse)
        + orderedRates r (ratesAt r before m)) := by
  rw [commonValue, h.modification_eq hi hr, h.meanWeight, h.volume, h.orderedValue_eq ratesAt_reverse, hr.falloff,
    thirdBodyOrder_simple hr.falloff]
  simp

lemma Prepared.netSlope_eq (h : Prepared m rs i r (ratesAt r before m) μ σ)
    (hr : SimpleReaction m.count r) {kr kr' : ℝ} (hk : r.reversible = true → kr = kr') (kf : ℝ) (s : ℕ) :
    netSlope r kf kr (σ.row "conc") s = netSlope r kf kr' m.concentration s :=
  netSlope_congr s hk fun s hs => h.concentrations s (hr.members s hs)

lemma Prepared.reverseConstant_eq (h : Prepared m rs i r q μ σ) :
    reverseConstant m.species r (σ.var "T") (σ.var "logT") (σ.var "Kc") =
      reverseConstant m.species r m.T (Real.log m.T) (μ.var "Kc") := by
  have hK : Rate.equilibriumConstant (memberAt m.species) r m.T (Real.log m.T) (σ.var "Kc") =
      Rate.equilibriumConstant (memberAt m.species) r m.T (Real.log m.T) (μ.var "Kc") := by
    unfold Rate.equilibriumConstant
    split
    · next hb => rw [h.constant hb]
    · rfl
  rw [h.temperature, h.logarithm, reverseConstant, hK, reverseConstant]

end Values

/-- Hydrogen atoms, hydrogen and nitrogen at 1000 K and one atmosphere. -/
def hydrogenMixture : Mixture where
  species := [{ Species.named "H" with weight := .measure 1 },
    { Species.named "H2" with weight := .measure 2.0 }, { Species.named "N2" with weight := .measure 28 }]
  T := 1000
  P := 101325
  Y := fun _ => 1 / 4

/-- Two atoms recombine in a collision, with hydrogen as the better partner. -/
def recombination : Reaction ℕ Exact :=
  { Reaction.elementary true [0] [.count 2] [1] [.count 1] (.measure 1.78e12) (.count (-1)) (.measure 0) with
    thirdBody := true
    efficiencies := [(1, .measure 2.5)] }

lemma recombination_simple : SimpleReaction hydrogenMixture.count recombination where
  falloff := rfl
  plog := rfl
  chebyshev := rfl
  collider := rfl
  reactants := wholeSide_single two_pos (by simp)
  products := wholeSide_single one_pos (by simp)
  members := by simp [recombination, Reaction.elementary, hydrogenMixture, Mixture.count]
  efficiencies := by decide
  factor := by norm_num [recombination, Reaction.elementary]
  reverse := .inl rfl

lemma hydrogenMixture_moles : hydrogenMixture.moles ≠ 0 := by
  norm_num [Mixture.moles, Mixture.fraction, Mixture.weight, Mixture.count, hydrogenMixture, Finset.sum_range_succ]

lemma hydrogenMixture_concentration {s : ℕ} (hs : s < 2) : hydrogenMixture.concentration s ≠ 0 := by
  have hρ : hydrogenMixture.density ≠ 0 := Mixture.density_ne_zero (by norm_num [hydrogenMixture])
    (by norm_num [hydrogenMixture]) hydrogenMixture_moles
  refine div_ne_zero (mul_ne_zero hρ ?_) ?_ <;> interval_cases s <;>
    norm_num [Mixture.fraction, Mixture.weight, Mixture.count, hydrogenMixture]

/-- A memory of the Jacobian function with the rates `q`. -/
def jacobianMemory (m : Mixture) (q : Rates) (μ : Memory) : Memory
  | .cell "T" none => m.T
  | .cell "logT" none => Real.log m.T
  | .cell "mw_avg" none => m.meanWeight
  | .cell "rho_inv" none => 1 / m.density
  | .cell "conc" (some k) => m.concentration k.toNat
  | .cell "fwd_rates" _ => q.forward
  | .cell "rev_rates" _ => q.reverse
  | .cell "pres_mod" _ => q.modification
  | p => μ p

lemma jacobianMemory_prepared (rs : List (Reaction ℕ Exact)) (i : ℕ) (q : Rates) (μ : Memory) :
    Prepared m rs i r q μ (jacobianMemory m q μ) :=
  ⟨rfl, rfl, rfl, rfl, fun _ _ => rfl, rfl, fun _ => rfl, fun _ => rfl, fun _ => rfl⟩

open Classical in
/-- The emitted derivative of an elementary or third-body reaction by the mass fraction
of species `j`, against the derivative of what the rate code computes. They agree up to
the weight over the density, with two exceptions: a rate that depends on no concentration
has no expression, and efficiencies of a reaction without third body are counted as if
they raised its order. -/
theorem emitted_derivative {reactions : List (Reaction ℕ Exact)} {i j : ℕ} {sj : Species Exact}
    (hi : reactions[i]? = some r) (hr : SimpleReaction m.count r)
    (hw : ∀ s ∈ m.species, 0 < s.weight.toReal) (hj : j + 1 < m.count)
    (hs : m.species[j]? = some sj) (hT : m.T ≠ 0) (hP : m.P ≠ 0) (hm : m.moles ≠ 0)
    (t : Emit.Target) (label : ℤ) (μ : Memory) : ∃ start e q progress D,
      compositionStart m.species (ranksAt reactions i) r = .ok start ∧
      speciesDerivative m.species (ranksAt reactions i) r j sj.weight = .ok e ∧
      emittedRates t reactions label r i μ m = some q ∧
      (∀ x, (emittedRates t reactions label r i μ (m.withFraction j x)).map Rates.progress = some (progress x)) ∧
      HasDerivAt progress D (m.Y j) ∧
      ∀ σ, Prepared m reactions i r q μ σ → (runItems σ start).bind (fun τ => e.value τ) =
        if Orderless r then none else some (m.weight j / m.density * D - miscounted m r q j) := by
  obtain ⟨sl, hsl, hlast⟩ := m.exists_last hj
  have hWj := hw sj (mem_of_getElem? hs)
  have hWl := hw sl (mem_of_getElem? hsl)
  have hr' : SimpleReaction m.species.length r := hr
  obtain ⟨start, hstart, hrun⟩ := compositionStart_run hr' (ranksAt reactions i)
  obtain ⟨e, he, hev⟩ := speciesDerivative_ok hr (ranksAt reactions i) j hlast hWj hWl
  rw [← Mixture.weight_eq hs] at hWj hev
  rw [← Mixture.weight_eq hsl] at hWl hev
  have hρ := Mixture.density_ne_zero hT hP hm
  refine ⟨start, e, ratesAt r (μ.var "Kc") m, fun x => (ratesAt r (μ.var "Kc") (m.withFraction j x)).progress,
    _, hstart, he, emittedRates_eq hr t reactions label i μ, fun x => ?_,
    hasDerivAt_progress hr (μ.var "Kc") hj hm, fun σ hσ => ?_⟩
  · rw [emittedRates_eq (m := m.withFraction j x) hr, Option.map_some]
  · obtain ⟨Kc, x, kr, hstate, hx, hkr⟩ := hrun σ
    rw [hstate]
    split
    · rfl
    -- `x` is known only where the third bodies have a share, and only there it counts
    · have hshare : colliderShare r m.count j (m.weight j / m.weight (m.count - 1)) * x =
          colliderShare r m.count j (m.weight j / m.weight (m.count - 1)) *
            ((ratesAt r (μ.var "Kc") m).forward - (ratesAt r (μ.var "Kc") m).reverse) := by
        by_cases hc : r.thirdBody = true ∧ r.efficiencies ≠ []
        · rw [hx hc, hσ.net_eq_of ratesAt_reverse]
        · rw [colliderShare, if_neg hc, zero_mul, zero_mul]
      have hkr' : r.reversible = true → kr = reverseConstant m.species r m.T (Real.log m.T) (μ.var "Kc") :=
        fun hrev => (hkr hrev).trans hσ.reverseConstant_eq
      rw [Option.bind_some, hev]
      simp only [derivativeValue, row_update_var_eq, Function.update_apply, Place.cell.injEq, String.reduceEq,
        false_and, if_true, if_false]
      rw [hσ.modification_eq hi hr, hσ.commonValue_eq hi hr, hσ.netSlope_eq hr hkr', hσ.netSlope_eq hr hkr',
        hσ.temperature, hσ.logarithm, ← emitted_terms hWj.ne' hWl.ne' hρ]
      change some (_ + colliderShare r m.count j _ * x + _) = _
      rw [hshare]
      congr 1
      change _ = _ + _ * (_ - _ * netSlope r _ _ _ (m.species.length - 1)) - _
      ring

/-- The derivative of the recombination by the mass fraction of the atoms. -/
theorem recombination_derivative : ∃ start e q progress D,
      compositionStart hydrogenMixture.species (ranksAt [recombination] 0) recombination = .ok start ∧
      speciesDerivative hydrogenMixture.species (ranksAt [recombination] 0) recombination 0 (.measure 1) = .ok e ∧
      emittedRates { language := .c } [recombination] 0 recombination 0 0 hydrogenMixture = some q ∧
      (∀ x, (emittedRates { language := .c } [recombination] 0 recombination 0 0
        (hydrogenMixture.withFraction 0 x)).map Rates.progress = some (progress x)) ∧
      HasDerivAt progress D (hydrogenMixture.Y 0) ∧
      Prepared hydrogenMixture [recombination] 0 recombination q 0 (jacobianMemory hydrogenMixture q 0) ∧
      (runItems (jacobianMemory hydrogenMixture q 0) start).bind (fun τ => e.value τ) =
        some (hydrogenMixture.weight 0 / hydrogenMixture.density * D) := by
  obtain ⟨start, e, q, progress, D, hstart, he, hq, hprogress, hD, hvalue⟩ :=
    emitted_derivative (j := 0) (show [recombination][0]? = some recombination from rfl)
      recombination_simple (by norm_num [hydrogenMixture]) (by decide) rfl
      (by norm_num [hydrogenMixture]) (by norm_num [hydrogenMixture]) hydrogenMixture_moles
      { language := .c } 0 0
  have hσ := jacobianMemory_prepared (m := hydrogenMixture) (r := recombination) [recombination] 0 q 0
  refine ⟨start, e, q, progress, D, hstart, he, hq, hprogress, hD, hσ, ?_⟩
  have hordered : ¬Orderless recombination := fun h => by cases h.1
  have hcounted : ¬(recombination.thirdBody = false ∧ recombination.efficiencies ≠ []) := fun h => by cases h.1
  rw [hvalue _ hσ, if_neg hordered, miscounted, if_neg hcounted, sub_zero]

end Comparison

end

end Kinetics.Jacobian
