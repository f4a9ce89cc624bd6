import Kinetics.Proofs.RatesOfProgress
import Kinetics.Proofs.RateCode
/-!
# Equilibrium constants from entropies and enthalpies

The exponent that the emitted conditionals sum up leaves out one power of the
temperature for each mole. Put together with the factor in front, it is the constant
of thermodynamics, `(p / (R T)) ^ Δn` times the exponential of the entropies minus the
enthalpies. `equilibrium_constants` says so for the code of the rates and for the code
of the derivatives.
-/

open List

namespace Kinetics.Rate

open Code

noncomputable section

/-! ## Entropy minus enthalpy -/

/-- Entropy minus enthalpy of a species at a temperature. -/
def gibbsAt (s : Species Exact) (T : ℝ) : ℝ := speciesExponent s T (Real.log T) + Real.log T

variable {T : Exact}

lemma reducedGibbs_ok (p : Nasa Exact) (hT : T.toReal ≠ 0) (logT ha T2 T3 T4 : Exact) :
    ∃ x, Species.reducedGibbs p T logT ha T2 T3 T4 = .ok x ∧
      x.toReal = p.a1.toReal * (logT.toReal - 1) + p.a2.toReal * ha.toReal + p.a3.toReal * T2.toReal
        + p.a4.toReal * T3.toReal + p.a5.toReal * T4.toReal - p.a6.toReal / T.toReal + p.a7.toReal := by
  refine ⟨_, by rw [Species.reducedGibbs, Exact.div_ok hT]; rfl, ?_⟩
  simp only [Exact.toReal_add, Exact.toReal_sub, Exact.toReal_mul, Exact.toReal_unit, Exact.toReal_measure]

lemma entropyMinusEnthalpy_ok (hT : 0 < T.toReal) (sp : List (Species Exact)) :
    ∃ smh, Species.entropyMinusEnthalpy T sp = .ok smh ∧
      List.Forall₂ (fun s (x : Exact) => x.toReal = gibbsAt s T.toReal) sp smh := by
  have ho : ∀ s : Species Exact, ∃ x : Exact, Species.reducedGibbs
      (if Arithmetic.le T s.midpoint then s.low else s.high) T (.measure (Real.log T.toReal))
      (Arithmetic.part T 2) (Arithmetic.part (T * T) 6) (Arithmetic.part (T * T * T) 12)
      (Arithmetic.part (T * T * T * T) 20) = .ok x ∧ x.toReal = gibbsAt s T.toReal := by
    intro s
    obtain ⟨x, hx, hv⟩ := reducedGibbs_ok (if Arithmetic.le T s.midpoint then s.low else s.high) hT.ne'
      (.measure (Real.log T.toReal)) (Arithmetic.part T 2) (Arithmetic.part (T * T) 6)
      (Arithmetic.part (T * T * T) 12) (Arithmetic.part (T * T * T * T) 20)
    refine ⟨x, hx, hv.trans ?_⟩
    simp only [Exact.toReal_part, Exact.toReal_mul, Exact.toReal_measure, Exact.le_iff, gibbsAt,
      speciesExponent, moleExponent]
    split <;> push_cast <;> ring
  obtain ⟨smh, hs⟩ := mapM_ok fun s (_ : s ∈ sp) => (ho s).imp fun _ h => h.1
  refine ⟨smh, by rw [Species.entropyMinusEnthalpy, Exact.log_ok hT, ok_bind]; exact hs, ?_⟩
  refine (mapM_eq_ok.1 hs).imp fun s x hx => ?_
  obtain ⟨y, hy, hv⟩ := ho s
  rw [← hv]
  exact congrArg Exact.toReal (Except.ok.inj (hx.symm.trans hy))

/-! ## The constant of thermodynamics -/

/-- The equilibrium constant, from entropies minus enthalpies `g` of the species. -/
def thermodynamicConstant (r : Reaction ℕ Exact) (g : ℕ → ℝ) (T : ℝ) : ℝ :=
  ((atmosphere : Exact).toReal / ((gasConstant : Exact).toReal * T)) ^ moleChange r *
    Real.exp ((participants r).map fun s => (r.change s).toReal * g s).sum

lemma thermodynamicConstant_congr {r : Reaction ℕ Exact} {g g' : ℕ → ℝ}
    (h : ∀ s ∈ participants r, g s = g' s) (T : ℝ) : thermodynamicConstant r g T = thermodynamicConstant r g' T := by
  unfold thermodynamicConstant
  congr 3
  exact map_congr_left fun s hs => by rw [h s hs]

/-- The power of the temperature moves from the factor into the exponent. -/
lemma thermodynamicConstant_eq (sp : ℕ → Species Exact) (r : Reaction ℕ Exact) {T : ℝ} (hT : 0 < T) :
    thermodynamicConstant r (fun s => gibbsAt (sp s) T) T =
      ((atmosphere : Exact).toReal / (gasConstant : Exact).toReal) ^ moleChange r *
        Real.exp (reactionExponent sp r T (Real.log T)) := by
  have hs : ((participants r).map fun s => (r.change s).toReal * gibbsAt (sp s) T).sum =
      reactionExponent sp r T (Real.log T) + Real.log T * moleChange r := by
    simp only [gibbsAt, mul_add, sum_map_add, sum_map_mul_right, reactionExponent, moleChange]
    ring
  have hb := (div_pos Exact.atmosphere_pos Exact.gasConstant_pos).le
  rw [thermodynamicConstant, hs, Real.exp_add, ← Real.rpow_def_of_pos hT, ← div_div, Real.div_rpow hb hT.le]
  field_simp

lemma equilibriumConstant_eq {r : Reaction ℕ Exact} (h : ¬Balanced r) (sp : ℕ → Species Exact) {T : ℝ}
    (hT : 0 < T) (before : ℝ) : equilibriumConstant sp r T (Real.log T) before =
      thermodynamicConstant r (fun s => gibbsAt (sp s) T) T := by
  rw [equilibriumConstant, if_neg h, thermodynamicConstant_eq sp r hT]

lemma not_balanced_of_change {r : Reaction ℕ Exact} (h : ∃ s, (r.change s).toReal ≠ 0) : ¬Balanced r := by
  obtain ⟨s, hs⟩ := h
  intro hb
  by_cases hm : s ∈ participants r
  · exact hs (hb s hm)
  · exact hs (by rw [Reaction.change_of_not_mem hm, Exact.toReal_zero])

/-! ## What the code of a rate constant assigns -/

section Assigned
variable {sp : List (Species Exact)} {r : Reaction ℕ Exact}

/-- The grammar of code that assigns work variables only. -/
def scratchGrammar : Grammar := ⟨(· ∈ scratchNames), fun _ => True, True, False, False, True, False⟩

instance : scratchGrammar.Stateful := ⟨trivial, trivial, fun _ _ => .inr trivial, fun _ h => h⟩

/-- The code of a rate constant, whatever its kind, assigns work variables only. -/
lemma rateConstantItems_assigns (r : Reaction ℕ Exact) :
    Yields (fun items => ∀ item ∈ items, ∀ p ∈ item.writes, ∃ a ∈ scratchNames, ∃ i, p = Place.cell a i)
      (Emit.rateConstantItems r) := by
  intro items hi item hit p hp
  exact (Emit.rateConstantItems_fits (G := scratchGrammar) items hi item hit).writes id And.right hp

end Assigned

/-! ## The two writers -/

section Agreement
variable {species : List (Species Exact)} {r : Reaction ℕ Exact}

/-- Where the code of a reaction computes an equilibrium constant, the code before it keeps the
temperature and its logarithm, and the code after it keeps the constant. -/
lemma reactionRateItems_constant {equilibrium items : List (Item Exact)} {σ τ : Memory} {K : ℝ}
    {rs : List (Reaction ℕ Exact)} {label : ℤ} {i : ℕ} (hrv : r.reversible = true)
    (he : r.reverse = []) (heq : equilibriumItems species r = .ok equilibrium)
    (hK : ∀ ρ : Memory, ρ.var "T" = σ.var "T" → ρ.var "logT" = σ.var "logT" →
      runItems ρ equilibrium = some (ρ.setVar "Kc" K))
    (hit : Emit.reactionRateItems species rs label r i = .ok items)
    (hrn : runItems σ items = some τ) : τ.var "Kc" = K := by
  simp only [Emit.reactionRateItems, hrv, he, if_true, isEmpty_nil, heq, ok_bind] at hit
  obtain ⟨constant, hc, hit⟩ := bind_eq_ok.1 hit
  obtain ⟨forward, hf, hit⟩ := bind_eq_ok.1 hit
  obtain ⟨rate, hr, hit⟩ := bind_eq_ok.1 hit
  cases hit
  obtain ⟨progress, rfl⟩ := Emit.forwardRate_target r i forward hf
  obtain ⟨regress, rfl⟩ := Emit.reverseRate_target r _ rate hr
  have hconstantWrites := rateConstantItems_assigns r constant hc
  rw [runItems_append, Option.bind_eq_some_iff] at hrn
  obtain ⟨ρ, hbf, hrn⟩ := hrn
  have hk : ∀ a, a ∉ scratchNames → ρ.var a = σ.var a := by
    intro a ha
    refine runItems_frame hbf fun item hi hp => ?_
    rcases mem_append.1 hi with hi | hi
    · rcases mem_append.1 hi with hi | hi
      · simp only [mem_cons, not_mem_nil, or_false] at hi
        rcases hi with rfl | rfl <;> exact absurd hp not_mem_nil
      · obtain ⟨b, hb, j, hj⟩ := hconstantWrites item hi _ hp
        cases hj
        exact ha hb
    · rw [mem_singleton.1 hi] at hp
      cases mem_singleton.1 hp
  rw [runItems_append, hK ρ (hk "T" (by decide)) (hk "logT" (by decide)), Option.bind_some] at hrn
  refine (runItems_frame hrn fun item hi hp => ?_).trans (by simp)
  simp only [mem_cons, not_mem_nil, or_false] at hi
  rcases hi with rfl | rfl
  · exact absurd (mem_singleton.1 hp) (by simp)
  · exact absurd hp not_mem_nil

def tableAt (xs : List Exact) (s : ℕ) : ℝ := (xs[s]?.map Exact.toReal).getD 0

lemma tableAt_eq {smh : List Exact} {T : ℝ}
    (h : List.Forall₂ (fun s (x : Exact) => x.toReal = gibbsAt s T) species smh) {s : ℕ}
    (hs : s < species.length) : tableAt smh s = gibbsAt (memberAt species s) T := by
  have hx : s < smh.length := h.length_eq ▸ hs
  have he := (forall₂_iff_get.1 h).2 s hs hx
  simp only [get_eq_getElem] at he
  simp [tableAt, memberAt, hx, hs, he]

/-- A reaction that changes some species and runs backwards through its equilibrium constant: the
code of the rates and the code of the derivatives both leave the constant of thermodynamics in
`Kc`, whatever midpoints the species have. The second part says the same of all code that the
rates of the reaction take. -/
theorem equilibrium_constants (hr : Side r.reactants r.reactantNu) (hp : Side r.products r.productNu)
    (hmem : ∀ s ∈ participants r, s < species.length) (hrev : r.reversible = true)
    (hexplicit : r.reverse = []) (hnet : ∃ s, (r.change s).toReal ≠ 0) {T : Exact} (hT : 0 < T.toReal) :
    ∃ smh rate derivative, Species.entropyMinusEnthalpy T species = .ok smh ∧
      equilibriumItems species r = .ok rate ∧ equilibriumItemsSorted species r = .ok derivative ∧
      let K := thermodynamicConstant r (tableAt smh) T.toReal
      (∀ σ : Memory, σ.var "T" = T.toReal → σ.var "logT" = Real.log T.toReal →
        runItems σ rate = some (Function.update σ (.cell "Kc" none) K) ∧
        runItems σ derivative = some (Function.update σ (.cell "Kc" none) K)) ∧
      ∀ (t : Emit.Target) (reactions : List (Reaction ℕ Exact)) (label : ℤ) (i : ℕ) items (σ τ : Memory),
        Emit.reactionRateItems species reactions label r i = .ok items → σ.var "T" = T.toReal →
        runItems σ ((Emit.rateIntro t (reactions.any (·.reversible)) reactions).map .step ++ items) =
          some τ → τ.var "Kc" = K := by
  have hbalanced := not_balanced_of_change hnet
  have hsp : ∀ s ∈ participants r, species[s]? = some (memberAt species s) := fun s hs => getElem?_memberAt (hmem s hs)
  obtain ⟨smh, hsmh, htable⟩ := entropyMinusEnthalpy_ok hT species
  obtain ⟨rate, hrate, hraterun⟩ := equilibriumItems_run hr hp hsp fun h => absurd h hbalanced
  obtain ⟨derivative, hderivative, hderivativerun⟩ := equilibriumItemsSorted_run (Reaction.Side.aligned hr hp) hsp
  have hK : ∀ before, equilibriumConstant (memberAt species) r T.toReal (Real.log T.toReal) before =
      thermodynamicConstant r (tableAt smh) T.toReal := fun before =>
    (equilibriumConstant_eq hbalanced _ hT before).trans
      (thermodynamicConstant_congr (fun s hs => (tableAt_eq htable (hmem s hs)).symm) _)
  refine ⟨smh, rate, derivative, hsmh, hrate, hderivative, fun σ hσ hlog => ⟨?_, ?_⟩,
    fun t reactions label i items σ τ hitems hσ hrun => ?_⟩
  · rw [hraterun, hσ, hlog, hK]
  · rw [hderivativerun, hσ, hlog, hK]
  · rw [runItems_append, runItems_steps, rateIntro_run, Option.bind_some] at hrun
    refine reactionRateItems_constant hrev hexplicit hrate (fun ρ hρ hρlog => ?_) hitems hrun
    have hρT : ρ.var "T" = T.toReal := by simpa [hσ] using hρ
    have hρlogT : ρ.var "logT" = Real.log T.toReal := by simpa [hσ] using hρlog
    rw [hraterun, hρT, hρlogT, hK]

/-- Fluorine and its atoms, with ranges that meet at different temperatures. -/
def fluorine : List (Species Exact) :=
  [{ Species.named "F2" with midpoint := .measure 1e3, low := Nasa.const (.measure 3) },
    { Species.named "F" with midpoint := .measure 800, high := Nasa.const (.measure 2.0) }]

def fluorineDissociation : Reaction ℕ Exact :=
  Reaction.elementary true [0] [.count 1] [1] [.count 2] (.measure 1e13) (.measure 0) (.measure 17000)

lemma fluorineDissociation_simple : SimpleReaction fluorine.length fluorineDissociation where
  falloff := rfl
  plog := rfl
  chebyshev := rfl
  collider := rfl
  reactants := wholeSide_single one_pos (by simp)
  products := wholeSide_single two_pos (by simp)
  members := by simp [fluorineDissociation, Reaction.elementary, fluorine]
  efficiencies := nodup_nil
  factor := by norm_num [fluorineDissociation, Reaction.elementary]
  reverse := .inl rfl

lemma fluorineDissociation_change : (fluorineDissociation.change 1).toReal = 2 := by
  rw [Reaction.change_of_product (mem_singleton_self 1) (by decide) rfl]
  simp

/-- At 900 K the molecule is below its midpoint and the atom above. -/
theorem fluorine_constants : ∃ smh items τ, Species.entropyMinusEnthalpy (.count 900) fluorine = .ok smh ∧
      Emit.reactionRateItems fluorine [fluorineDissociation] 0 fluorineDissociation 0 = .ok items ∧
      runItems (fun _ => 900)
        ((Emit.rateIntro { language := .c } true [fluorineDissociation]).map .step ++ items) = some τ ∧
      τ.var "Kc" = thermodynamicConstant fluorineDissociation (tableAt smh) 900 := by
  have h := fluorineDissociation_simple
  obtain ⟨items, hitems, hrun⟩ := reactionRateItems_run h.arrhenius [fluorineDissociation] 0 0
  obtain ⟨τ, hτ, -⟩ := hrun (Function.update (fun _ => 900) (.cell "logT" none) (Real.log 900))
  obtain ⟨smh, _, _, hsmh, -, -, -, hwhole⟩ := equilibrium_constants (T := .count 900) h.reactants.toSide
    h.products.toSide h.members rfl rfl ⟨1, by rw [fluorineDissociation_change]; norm_num⟩ (by norm_num)
  have hcode : runItems (fun _ => 900)
      ((Emit.rateIntro { language := .c } true [fluorineDissociation]).map .step ++ items) = some τ := by
    rw [runItems_append, runItems_steps, rateIntro_run, Option.bind_some, hτ]
  exact ⟨smh, items, τ, hsmh, hitems, hcode, by
    simpa using hwhole { language := .c } [fluorineDissociation] 0 0 items _ τ hitems (by simp) hcode⟩

end Agreement

end

end Kinetics.Rate
