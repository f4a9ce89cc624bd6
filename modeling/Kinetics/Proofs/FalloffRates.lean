import Kinetics.Proofs.RateLaw
/-!
# Falloff rates

A falloff reaction without broadening lies between two limits, at a place given by the
reduced pressure. `emittedRates_falloff` says what the rate code computes for it, and
`hasDerivAt_falloff` how that changes with a mass fraction.
-/

open List

namespace Kinetics

open Code

noncomputable section

/-! ## Reactions between two limits -/

/-- A list of rate parameters with a factor other than zero. -/
def IsLimit (given : List Exact) : Prop := ∃ a b e rest, given = a :: b :: e :: rest ∧ a.toReal ≠ 0

/-- A falloff reaction. One limit is given, the other is the rate constant of the reaction itself. -/
structure FalloffReaction (r : Reaction ℕ Exact) : Prop where
  falloff : r.falloff = true
  factor : r.A.toReal ≠ 0
  limits : IsLimit r.low ∧ r.high = [] ∨ r.low = [] ∧ IsLimit r.high

/-- A falloff reaction without broadening among `n` species. One limit is given, the other is
the rate constant of the reaction itself; all species are colliders, or one of them is. -/
structure LindemannReaction (n : ℕ) (r : Reaction ℕ Exact) : Prop extends ArrheniusReaction n r where
  falloff : r.falloff = true
  troe : r.troe = false
  sri : r.sri = false
  limits : IsLimit r.low ∧ r.high = [] ∨ r.low = [] ∧ IsLimit r.high
  collider : r.collider = none ∨ ∃ s < n, r.collider = some s ∧ r.efficiencies = []
  efficiencies : (r.efficiencies.map (·.1)).Nodup
  bodies : ∀ t ∈ r.efficiencies, t.1 < n

/-- A limit: given, or the rate constant of the reaction itself. -/
def limitConstant (r : Reaction ℕ Exact) (given : List Exact) (T logT : ℝ) : ℝ := match given with
  | a :: b :: e :: _ => Rate.rateConstant a b e T logT
  | _ => forwardConstant r T logT

def limitQuotientAt (r : Reaction ℕ Exact) (T : ℝ) : ℝ :=
  limitConstant r r.low T (Real.log T) / limitConstant r r.high T (Real.log T)

def reducedPressure (r : Reaction ℕ Exact) (m : Mixture) : ℝ :=
  limitConstant r r.low m.T (Real.log m.T) * colliders r m / limitConstant r r.high m.T (Real.log m.T)

/-- The place between the limits at a reduced pressure. -/
def placeBetween (r : Reaction ℕ Exact) (P : ℝ) : ℝ := if r.low = [] then 1 / (1 + P) else P / (1 + P)

/-- The rates of a falloff reaction; `before` is what `Kc` holds at the start. -/
def falloffRates (r : Reaction ℕ Exact) (before : ℝ) (m : Mixture) : Rates :=
  { ratesAt r before m with modification := placeBetween r (reducedPressure r m) }

lemma reducedPressure_eq (r : Reaction ℕ Exact) (m : Mixture) :
    reducedPressure r m = limitQuotientAt r m.T * colliders r m := by
  rw [reducedPressure, limitQuotientAt, div_mul_eq_mul_div]

/-! ## The emitted rates -/

section Rates
variable {n : ℕ} {r : Reaction ℕ Exact}

lemma LindemannReaction.toFalloff (h : LindemannReaction n r) : FalloffReaction r := ⟨h.falloff, h.factor, h.limits⟩

lemma limit_ok (h : FalloffReaction r) {given : List Exact} (hg : given = [] ∨ IsLimit given) :
    ∃ e, (if given.isEmpty then Rate.arrhenius r.A r.b r.E else Rate.arrheniusOf given) = .ok e ∧
      ∀ σ, Term σ e (limitConstant r given (σ.var "T") (σ.var "logT")) := by
  rcases hg with rfl | ⟨a, b, e, rest, rfl, ha⟩
  · exact Rate.arrhenius_ok h.factor r.b r.E
  · exact Rate.arrhenius_ok ha b e

lemma FalloffReaction.low_or (h : FalloffReaction r) : r.low = [] ∨ IsLimit r.low :=
  h.limits.elim (fun hl => .inr hl.1) fun hl => .inl hl.1

lemma FalloffReaction.high_or (h : FalloffReaction r) : r.high = [] ∨ IsLimit r.high :=
  h.limits.elim (fun hl => .inl hl.2) fun hl => .inr hl.2

lemma LindemannReaction.isModified (h : LindemannReaction n r) : r.isModified = true := by
  simp [Reaction.isModified, h.falloff]

lemma onePlusPr_factor (σ : Memory) : Factor σ Rate.onePlusPr (1 + σ.var "Pr") :=
  Factor.group (value_add Factor.one.value (Factor.var "Pr").term)

/-- The limits and the reduced pressure, from the concentration of colliders that the expression
`e` stands for. -/
lemma limits_run {k0 kinf e : Expr Exact} {X : ℝ} {σ : Memory} (rest : List (Step Exact))
    (hl : ∀ σ, Term σ k0 (limitConstant r r.low (σ.var "T") (σ.var "logT")))
    (hh : ∀ σ, Term σ kinf (limitConstant r r.high (σ.var "T") (σ.var "logT")))
    (he : ∀ x y, Factor ((σ.setVar "k0" x).setVar "kinf" y) e X) :
    ∃ τ, runSteps σ (.setVar "k0" k0 :: .setVar "kinf" kinf :: .setVar "Pr" (.var "k0" * e / .var "kinf") :: rest) =
        runSteps τ rest ∧ τ.var "T" = σ.var "T" ∧ τ.var "Pr" = limitConstant r r.low (σ.var "T") (σ.var "logT") * X /
          limitConstant r r.high (σ.var "T") (σ.var "logT") := by
  have hk := (hh (σ.setVar "k0" (limitConstant r r.low (σ.var "T") (σ.var "logT")))).value
  simp only [var_update_var, String.reduceEq, if_false] at hk
  have hp := (((Factor.var "k0").term.mul (he (limitConstant r r.low (σ.var "T") (σ.var "logT"))
    (limitConstant r r.high (σ.var "T") (σ.var "logT"))).term).div (Factor.var "kinf")).value
  refine ⟨_, by
    simp only [runSteps, run_setVar "k0" (hl σ).value, run_setVar "kinf" hk, run_setVar "Pr" hp, Option.bind_some]
    rfl, by simp, by simp⟩

/-- After the limits there are statements that set the modification to `g`, which depends on the
temperature and on the reduced pressure. -/
def EndsWith (r : Reaction ℕ Exact) (k : ℕ) (g : ℝ → ℝ → ℝ) : Prop := ∃ last : List (Step Exact),
  (∀ k0 kinf, Rate.lowLimit r = .ok k0 → Rate.highLimit r = .ok kinf →
    Rate.falloffSteps "C" (.cell "pres_mod" k) r = .ok
      (r.collider.elim [.setVar "thd" (Rate.thirdBodySum "C" r.efficiencies)] (fun _ => []) ++ [.setVar "k0" k0,
        .setVar "kinf" kinf, .setVar "Pr" (.var "k0" * r.collider.elim (.var "thd") (.cell "C" ·) / .var "kinf")] ++ last)) ∧
  ∀ σ, ∃ τ, runSteps σ (last ++ [.blank]) = some τ ∧ τ.row "pres_mod" k = g (σ.var "T") (σ.var "Pr")

lemma LindemannReaction.endsWith (h : LindemannReaction n r) (k : ℕ) : EndsWith r k fun _ P => placeBetween r P := by
  refine ⟨[.set (.cell "pres_mod" k) (Rate.plainModification r)], fun k0 kinf h₀ h₁ => ?_, fun σ =>
    ⟨σ.setRow "pres_mod" k (placeBetween r (σ.var "Pr")), ?_, by simp⟩⟩
  · simp only [Rate.falloffSteps, h₀, h₁, h.troe, h.sri, ok_bind]
    cases r.collider <;> rfl
  · refine congrArg (Option.bind · _) (run_setCell "pres_mod" k ?_)
    unfold Rate.plainModification placeBetween
    rcases h.limits with ⟨⟨a, b, e, rest, hl, -⟩, -⟩ | ⟨hl, a, b, e, rest, hh, -⟩
    · simp only [hl, isEmpty_cons, Bool.not_false, if_true, reduceCtorEq, if_false]
      exact ((Factor.var "Pr").term.div (onePlusPr_factor σ)).value
    · simp only [hl, hh, isEmpty_nil, isEmpty_cons, Bool.not_true, Bool.not_false, Bool.false_eq_true, if_true, if_false]
      exact (Factor.one.term.div (onePlusPr_factor σ)).value

variable {g : ℝ → ℝ → ℝ} {k : ℕ}

lemma falloffSteps_run (h : FalloffReaction r) (hg : EndsWith r k g) :
    ∃ steps, Rate.falloffSteps "C" (.cell "pres_mod" k) r = .ok steps ∧ ∀ σ, ∃ τ,
      runSteps σ (steps ++ [.blank]) = some τ ∧
      τ.row "pres_mod" k = g (σ.var "T") (limitConstant r r.low (σ.var "T") (σ.var "logT") *
        colliderConcentration r (σ.var "m") (σ.row "C") / limitConstant r r.high (σ.var "T") (σ.var "logT")) := by
  obtain ⟨last, hlast, hrun⟩ := hg
  obtain ⟨k0, hk0, hl⟩ := limit_ok h h.low_or
  obtain ⟨kinf, hk, hh⟩ := limit_ok h h.high_or
  have hstart : ∀ (σ : Memory) (e : Expr Exact) (X : ℝ),
      (∀ x y, Factor ((σ.setVar "k0" x).setVar "kinf" y) e X) →
      ∃ τ, runSteps σ (.setVar "k0" k0 :: .setVar "kinf" kinf :: .setVar "Pr" (.var "k0" * e / .var "kinf") ::
          (last ++ [.blank])) = some τ ∧
        τ.row "pres_mod" k = g (σ.var "T") (limitConstant r r.low (σ.var "T") (σ.var "logT") * X /
          limitConstant r r.high (σ.var "T") (σ.var "logT")) := by
    intro σ e X he
    obtain ⟨τ, hτ, hT, hP⟩ := limits_run (last ++ [.blank]) hl hh he
    rw [hτ, ← hP, ← hT]
    exact hrun τ
  refine ⟨_, hlast k0 kinf hk0 hk, ?_⟩
  unfold colliderConcentration
  cases hc : r.collider with
  | some s =>
    refine fun σ => hstart σ (.cell "C" s) _ fun x y => ?_
    have hcl := Factor.cell (σ := (σ.setVar "k0" x).setVar "kinf" y) "C" s
    rwa [row_update_var, row_update_var] at hcl
  | none =>
    -- the sum of the colliders is kept in `thd`, which the two limits leave alone
    intro σ
    generalize hX : thirdBodies (σ.var "m") (σ.row "C") r.efficiencies = X
    obtain ⟨τ, hτ, hm⟩ := hstart (σ.setVar "thd" X) (.var "thd") X fun x y => by
        have hv := Factor.var (σ := ((σ.setVar "thd" X).setVar "k0" x).setVar "kinf" y) "thd"
        simpa only [var_update_var, String.reduceEq, if_false, if_true] using hv
    refine ⟨τ, ?_, hm⟩
    have ht := run_setVar "thd" (hX ▸ thirdBodySum_value σ "C" r.efficiencies)
    rw [← hτ]
    exact congrArg (Option.bind · _) ht

lemma modificationItems_falloff (h : FalloffReaction r) (hg : EndsWith r k g) (l : Language) (label : ℤ) :
    ∃ items, Emit.modificationItems l label r k = .ok items ∧ ∀ σ, ∃ τ, runItems σ items = some τ ∧
      τ.row "pres_mod" k = g (σ.var "T") (limitConstant r r.low (σ.var "T") (σ.var "logT") *
        colliderConcentration r (σ.var "m") (σ.row "C") / limitConstant r r.high (σ.var "T") (σ.var "logT")) := by
  obtain ⟨steps, hs, hr⟩ := falloffSteps_run h hg
  refine ⟨_, by simp only [Emit.modificationItems, h.falloff, if_true, hs, ok_bind]; rfl, fun σ => ?_⟩
  simp only [cons_append, runItems, Item.run, Step.run, Option.bind_some, modificationLoads_run, runItems_steps]
  -- a third body is written too where it is declared, and overwritten by the falloff
  cases hb : r.thirdBody with
  | false => exact hr σ
  | true =>
    obtain ⟨τ, hτ, hm⟩ := hr (σ.setRow "pres_mod" k (thirdBodies (σ.var "m") (σ.row "C") r.efficiencies))
    rw [row_update_row_of_ne (by decide)] at hm
    refine ⟨τ, ?_, by simpa using hm⟩
    rw [← hτ]
    exact congrArg (Option.bind · _) (run_setCell "pres_mod" k (thirdBodySum_value σ "C" r.efficiencies))

/-- The emitted statements run at every mixture and compute the rates between the limits. -/
lemma emittedRates_falloff {m : Mixture} (h : LindemannReaction m.count r) (t : Emit.Target)
    (rs : List (Reaction ℕ Exact)) (label : ℤ) (i : ℕ) (μ : Memory) :
    emittedRates t rs label r i μ m = some (falloffRates r (μ.var "Kc") m) := by
  obtain ⟨items, hi, hr⟩ := modificationItems_falloff h.toFalloff
    (h.endsWith ((rs.take i).countP (·.isModified))) t.language label
  refine emittedRates_of_modification h.toArrheniusReaction t rs label i μ hi (fun σ hT hlogT hm hC => ?_) fun hb => ?_
  · obtain ⟨τ, hτ, hmd⟩ := hr σ
    rw [hT, hlogT, hm, hC] at hmd
    exact ⟨τ, hτ, fun _ => hmd⟩
  · simp [h.isModified] at hb

end Rates

/-! ## Their derivative -/

section Derivative
variable {r : Reaction ℕ Exact} {m : Mixture} {j : ℕ}

def collides (r : Reaction ℕ Exact) (s : ℕ) : ℝ := match r.collider with
  | some t => if t = s then 1 else 0
  | none => (Jacobian.efficiencyOf r s).toReal

lemma meanWeight_mul_total (m : Mixture) : m.meanWeight * m.total = m.density := by
  rw [Mixture.density, Mixture.total]
  ring

lemma hasDerivAt_colliders (hn : (r.efficiencies.map (·.1)).Nodup) (hj : j + 1 < m.count) (hm : m.moles ≠ 0) :
    HasDerivAt (fun x => colliders r (m.withFraction j x))
      (m.fractionSlope j (colliders r m) (collides r j) (collides r (m.count - 1))) (m.Y j) := by
  unfold colliders colliderConcentration collides Mixture.fractionSlope
  cases r.collider with
  | some s =>
    refine (Mixture.hasDerivAt_concentration hj hm s).congr_deriv ?_
    simp only [m.withFraction_self, mul_ite, mul_one, mul_zero]
  | none =>
    have hb := hasDerivAt_thirdBodies m.total (fun k => Mixture.hasDerivAt_concentration hj hm k) hn
    rw [m.withFraction_self] at hb
    refine hb.congr_deriv ?_
    -- the loss of all molecules together is made up by those of the two species
    have hl := meanWeight_mul_total m
    linear_combination (1 / m.weight j - 1 / m.weight (m.count - 1)) * hl

/-- The slope of the place between the limits by the concentration of colliders. -/
def modificationRise (r : Reaction ℕ Exact) (m : Mixture) : ℝ :=
  (if r.low = [] then -limitQuotientAt r m.T else limitQuotientAt r m.T) / (1 + reducedPressure r m) ^ 2

lemma hasDerivAt_placeBetween {D : ℝ} (hp : 1 + reducedPressure r m ≠ 0)
    (h : HasDerivAt (fun x => colliders r (m.withFraction j x)) D (m.Y j)) :
    HasDerivAt (fun x => placeBetween r (reducedPressure r (m.withFraction j x)))
      (modificationRise r m * D) (m.Y j) := by
  have hP : HasDerivAt (fun x => reducedPressure r (m.withFraction j x)) (limitQuotientAt r m.T * D) (m.Y j) := by
    simp only [reducedPressure_eq]
    exact h.const_mul (limitQuotientAt r m.T)
  have hs := hP.const_add 1
  have hne : 1 + reducedPressure r (m.withFraction j (m.Y j)) ≠ 0 := by rwa [m.withFraction_self]
  unfold placeBetween modificationRise
  by_cases hl : r.low = []
  · simp only [hl, if_true]
    refine ((hasDerivAt_const (m.Y j) (1 : ℝ)).fun_div hs hne).congr_deriv ?_
    rw [m.withFraction_self]
    ring
  · simp only [hl, if_false]
    refine (hP.fun_div hs hne).congr_deriv ?_
    rw [m.withFraction_self]
    ring

lemma hasDerivAt_falloff (hn : (r.efficiencies.map (·.1)).Nodup) (before : ℝ) (hj : j + 1 < m.count)
    (hm : m.moles ≠ 0) (hpr : 1 + reducedPressure r m ≠ 0) :
    let q := falloffRates r before m
    let kf := forwardConstant r m.T (Real.log m.T)
    let kr := reverseConstant m.species r m.T (Real.log m.T) before
    HasDerivAt (fun x => (falloffRates r before (m.withFraction j x)).progress)
      (modificationRise r m * m.fractionSlope j (colliders r m) (collides r j) (collides r (m.count - 1))
          * (q.forward - q.reverse)
        + q.modification * m.fractionSlope j (orderedRates r q) (netSlope r kf kr m.concentration j)
          (netSlope r kf kr m.concentration (m.count - 1))) (m.Y j) := by
  intro q kf kr
  have hp := (hasDerivAt_placeBetween hpr (hasDerivAt_colliders hn hj hm)).mul (hasDerivAt_net r before hj hm)
  rw [m.withFraction_self] at hp
  exact hp

end Derivative

end

end Kinetics
