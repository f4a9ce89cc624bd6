import Kinetics.Emit.PressureModification
import Kinetics.Proofs.EquilibriumConstant
import Kinetics.Proofs.MassAction
import Kinetics.Proofs.Mixture
import Kinetics.Proofs.RateConstant
/-!
# Rates of progress

What the emitted rate code computes for an elementary or third-body reaction at a
mixture, and how that changes with a mass fraction. `emittedRates` runs the statements;
`emittedRates_eq` gives the products of concentrations that they compute, and
`hasDerivAt_progress` their derivative.
-/

open List

namespace Kinetics

noncomputable section

open Code

/-! ## Reactions without falloff -/

/-- An elementary or third-body reaction among `n` species, with whole coefficients
and with rate constants that have an expression. -/
structure SimpleReaction (n : ℕ) (r : Reaction ℕ Exact) : Prop where
  falloff : r.falloff = false
  plog : r.plog = false
  chebyshev : r.chebyshev = false
  collider : r.collider = none
  reactants : WholeSide r.reactants r.reactantNu
  products : WholeSide r.products r.productNu
  members : ∀ s ∈ Rate.participants r, s < n
  efficiencies : (r.efficiencies.map (·.1)).Nodup
  factor : r.A.toReal ≠ 0
  reverse : r.reverse = [] ∨ ∃ a b e rest, r.reverse = a :: b :: e :: rest ∧ a.toReal ≠ 0

/-- What the rates before any modification need: whole coefficients, and rate constants
that have an expression. -/
structure ArrheniusReaction (n : ℕ) (r : Reaction ℕ Exact) : Prop where
  plog : r.plog = false
  chebyshev : r.chebyshev = false
  reactants : WholeSide r.reactants r.reactantNu
  products : WholeSide r.products r.productNu
  members : ∀ s ∈ Rate.participants r, s < n
  factor : r.A.toReal ≠ 0
  reverse : r.reverse = [] ∨ ∃ a b e rest, r.reverse = a :: b :: e :: rest ∧ a.toReal ≠ 0

lemma SimpleReaction.arrhenius {n : ℕ} {r : Reaction ℕ Exact} (h : SimpleReaction n r) : ArrheniusReaction n r :=
  ⟨h.plog, h.chebyshev, h.reactants, h.products, h.members, h.factor, h.reverse⟩

def thirdBodies (total : ℝ) (c : ℕ → ℝ) (efficiencies : List (ℕ × Exact)) : ℝ :=
  total + (efficiencies.map fun t => (t.2.toReal - 1) * c t.1).sum

/-- The concentration of the colliders of a reaction: one species, or all with their efficiencies. -/
def colliderConcentration (r : Reaction ℕ Exact) (total : ℝ) (c : ℕ → ℝ) : ℝ := match r.collider with
  | some s => c s
  | none => thirdBodies total c r.efficiencies

lemma addEfficiency_value {σ : Memory} {e : Expr Exact} {x : ℝ} (he : e.value σ = some x)
    (array : String) (t : ℕ × Exact) :
    (Rate.addEfficiency array e t).value σ = some (x + (t.2.toReal - 1) * σ.row array t.1) := by
  have hc := (Factor.cell (σ := σ) array t.1).term
  simp only [Rate.addEfficiency, Exact.eq_iff, Exact.lt_iff, Exact.toReal_unit]
  rcases lt_trichotomy t.2.toReal 1 with h | h | h
  · rw [if_neg h.ne, if_neg h.not_gt, if_pos h,
      value_sub he ((Factor.plain (Arithmetic.unit - t.2)).term.mul hc), Exact.toReal_sub, Exact.toReal_unit]
    congr 1
    ring
  · rw [if_pos h, he, h]
    simp
  · rw [if_neg h.ne', if_pos h, value_add he ((Factor.plain (t.2 - Arithmetic.unit)).term.mul hc),
      Exact.toReal_sub, Exact.toReal_unit]

lemma thirdBodySum_value (σ : Memory) (array : String) (efficiencies : List (ℕ × Exact)) :
    (Rate.thirdBodySum array efficiencies).value σ = some (thirdBodies (σ.var "m") (σ.row array) efficiencies) := by
  have fold : ∀ (l : List (ℕ × Exact)) (e : Expr Exact) (x : ℝ), e.value σ = some x →
      (l.foldl (Rate.addEfficiency array) e).value σ =
        some (x + (l.map fun t => (t.2.toReal - 1) * σ.row array t.1).sum) := by
    intro l
    induction l with
    | nil =>
      intro e x h
      simpa using h
    | cons t l ih =>
      intro e x h
      rw [foldl_cons, ih _ _ (addEfficiency_value h array t), map_cons, sum_cons, add_assoc]
  exact fold efficiencies _ _ (Factor.var "m").value

lemma sum_efficiencies (r : Reaction ℕ Exact) (h : (r.efficiencies.map (·.1)).Nodup) (s : ℕ) :
    (r.efficiencies.map fun t => if t.1 = s then t.2.toReal - 1 else 0).sum =
      (Jacobian.efficiencyOf r s).toReal - 1 := by
  unfold Jacobian.efficiencyOf
  generalize r.efficiencies = l at h
  induction l with
  | nil => simp
  | cons t l ih =>
    rw [map_cons, nodup_cons] at h
    rw [map_cons, sum_cons, List.find?_cons]
    by_cases hs : t.1 = s
    · have hz : l.map (fun t => if t.1 = s then t.2.toReal - 1 else 0) = l.map fun _ => (0 : ℝ) :=
        map_congr_left fun u hu => if_neg fun hus : u.1 = s =>
          h.1 (hs ▸ hus ▸ mem_map_of_mem hu)
      simp [hs, hz]
    · rw [ih h.2, if_neg hs, zero_add, beq_false_of_ne hs]

/-! ## The emitted rates -/

/-- The memory with which the rate functions are called. -/
def Mixture.memory (m : Mixture) (μ : Memory) : Memory
  | .cell "T" none => m.T
  | .cell "pres" none => m.P
  | .cell "C" (some k) => m.concentration k.toNat
  | p => μ p

/-- What the rate functions compute for one reaction. -/
structure Rates where
  forward : ℝ
  reverse : ℝ
  modification : ℝ

def Rates.progress (q : Rates) : ℝ := q.modification * (q.forward - q.reverse)

/-- Runs the emitted statements of the reaction at position `i`, from a memory that
holds anything besides the arguments. -/
def emittedRates (t : Emit.Target) (reactions : List (Reaction ℕ Exact)) (label : ℤ)
    (r : Reaction ℕ Exact) (i : ℕ) (μ : Memory) (m : Mixture) : Option Rates := do
  let rank := (reactions.take i).countP (·.isModified)
  let rates ← (Emit.reactionRateItems m.species reactions label r i).toOption
  let intro := Emit.rateIntro t (reactions.any (·.reversible)) reactions
  let σ ← runItems (m.memory μ) (intro.map .step ++ rates)
  let modifications ← (Emit.modificationItems t.language label r rank).toOption
  let τ ← runItems (m.memory μ) ((Emit.modificationStart t).map .step ++ modifications)
  return {
    forward := σ.row "fwd_rxn_rates" i
    reverse := if r.reversible then σ.row "rev_rxn_rates" (Emit.reverseRank reactions i) else 0
    modification := if r.isModified then τ.row "pres_mod" rank else 1 }

section
variable (m : Mixture) (μ : Memory)

@[simp] lemma memory_T : (m.memory μ).var "T" = m.T := rfl

@[simp] lemma memory_pres : (m.memory μ).var "pres" = m.P := rfl

@[simp] lemma memory_C : (m.memory μ).row "C" = m.concentration := rfl

@[simp] lemma memory_Kc : (m.memory μ).var "Kc" = μ.var "Kc" := rfl

end

def memberAt (species : List (Species Exact)) (s : ℕ) : Species Exact := species[s]?.getD (.named "")

lemma getElem?_memberAt {sp : List (Species Exact)} {s : ℕ} (h : s < sp.length) : sp[s]? = some (memberAt sp s) := by
  simp [memberAt, h]

def forwardConstant (r : Reaction ℕ Exact) (T logT : ℝ) : ℝ := Rate.rateConstant r.A r.b r.E T logT

/-- The rate constant of the reverse direction: explicit, or from an equilibrium constant. -/
def reverseFrom (r : Reaction ℕ Exact) (T logT Kc : ℝ) : ℝ := match r.reverse with
  | a :: b :: e :: _ => Rate.rateConstant a b e T logT
  | _ => forwardConstant r T logT / Kc

/-- The rate constant of the reverse direction, with the emitted equilibrium constant. -/
def reverseConstant (species : List (Species Exact)) (r : Reaction ℕ Exact) (T logT before : ℝ) : ℝ :=
  reverseFrom r T logT (Rate.equilibriumConstant (memberAt species) r T logT before)

section
variable {n : ℕ} {sp : List (Species Exact)} {r : Reaction ℕ Exact}

lemma ArrheniusReaction.balanced (h : ArrheniusReaction n r) :
    Rate.Balanced r → ∀ s ∈ r.reactants, s ∈ r.products := by
  intro hb s hs
  by_contra hp
  obtain ⟨i, hi⟩ := mem_iff_getElem?.1 hs
  obtain ⟨x, hx, hc⟩ := h.reactants.coefficient_of_getElem? hi
  obtain ⟨k, hk, hv⟩ := h.reactants.whole x (mem_of_getElem? hx)
  have hz := hb s ((Rate.mem_participants r).2 (.inl hs))
  rw [Reaction.change_of_reactant hp hs hc, Exact.toReal_neg, hv, neg_eq_zero, Nat.cast_eq_zero] at hz
  omega

lemma ArrheniusReaction.getElem? (h : ArrheniusReaction sp.length r) :
    ∀ s ∈ Rate.participants r, sp[s]? = some (memberAt sp s) :=
  fun s hs => getElem?_memberAt (h.members s hs)

/-- The forward rate, and the forward rate constant if the reverse rate needs it. -/
lemma forwardItems_run (h : ArrheniusReaction n r) (i : ℕ) :
    ∃ constant forward, Emit.rateConstantItems r = .ok constant ∧ Emit.forwardRate r i = .ok forward ∧
      ∀ σ, ∃ kf, runItems σ (constant ++ [.step forward]) = some ((σ.setVar "kf" kf).setRow "fwd_rxn_rates" i
          (monomial (σ.row "C") (r.reactants.zip r.reactantNu) * forwardConstant r (σ.var "T") (σ.var "logT"))) ∧
        (r.reversible = true → r.reverse = [] → kf = forwardConstant r (σ.var "T") (σ.var "logT")) := by
  obtain ⟨kf, hkf, htr⟩ := Rate.arrhenius_ok h.factor r.b r.E
  have hw := fun t ht => h.reactants.isWhole (t := t) ht
  by_cases hkp : r.reversible = true ∧ r.reverse = []
  · have hk : Emit.keepsRateConstant r = true := by simp [Emit.keepsRateConstant, hkp]
    refine ⟨[.step (.setVar "kf" kf)], _, ?_, forwardRate_eq h.reactants.toSide i (e := .var "kf") (by simp [hk]),
      fun σ => ⟨_, ?_, fun _ _ => rfl⟩⟩
    · simp only [Emit.rateConstantItems, hkp.1, hkp.2, h.plog, h.chebyshev, hkf]
      rfl
    · have hvar := Factor.var (σ := σ.setVar "kf" (forwardConstant r (σ.var "T") (σ.var "logT"))) "kf"
      have hp := (sideProduct_term { after := 0 } hw hvar.term).value
      rw [row_update_var_eq, var_update_var, if_pos rfl] at hp
      simp only [singleton_append, runItems, Item.run, run_setVar "kf" (htr σ).value, Option.bind_some]
      rw [← forwardConstant, run_setCell "fwd_rxn_rates" i hp, Option.bind_some]
  · have hk : Emit.keepsRateConstant r = false := by
      simpa [Emit.keepsRateConstant, h.plog, h.chebyshev] using hkp
    refine ⟨[], _, ?_, forwardRate_eq h.reactants.toSide i (e := kf) (by simp [hk, hkf]),
      fun σ => ⟨σ.var "kf", ?_, fun h₁ h₂ => absurd ⟨h₁, h₂⟩ hkp⟩⟩
    · have hc : (r.reversible && r.reverse.isEmpty) = false := by simpa using hkp
      simp only [Emit.rateConstantItems, hc, h.plog, h.chebyshev]
      rfl
    · rw [nil_append, runItems, Item.run, setVar_self,
        run_setCell "fwd_rxn_rates" i (sideProduct_term { after := 0 } hw (htr σ)).value]
      rfl

/-- The reverse rate, after the equilibrium constant if there are no explicit parameters. -/
lemma reverseItems_run (h : ArrheniusReaction sp.length r) (j : ℕ) :
    ∃ equilibrium rate, (if r.reverse.isEmpty then Rate.equilibriumItems sp r else pure []) = .ok equilibrium ∧
      Emit.reverseRate r j = .ok rate ∧
      ∀ σ, (r.reverse = [] → σ.var "kf" = forwardConstant r (σ.var "T") (σ.var "logT")) →
        ∃ Kc, runItems σ (equilibrium ++ [.step rate, .step .blank]) = some ((σ.setVar "Kc" Kc).setRow "rev_rxn_rates" j
          (monomial (σ.row "C") (r.products.zip r.productNu) *
            reverseConstant sp r (σ.var "T") (σ.var "logT") (σ.var "Kc"))) := by
  have hw := fun t ht => h.products.isWhole (t := t) ht
  rcases h.reverse with hnil | ⟨a, b, e, rest, hexp, ha⟩
  · obtain ⟨items, hi, hrun⟩ := Rate.equilibriumItems_run h.reactants.toSide h.products.toSide h.getElem? h.balanced
    refine ⟨items, _, by simpa [hnil] using hi,
      reverseRate_eq h.products.toSide j (by simp only [hnil]; rfl), fun σ hkf =>
        ⟨Rate.equilibriumConstant (memberAt sp) r (σ.var "T") (σ.var "logT") (σ.var "Kc"), ?_⟩⟩
    rw [runItems_append, hrun]
    generalize hK : Rate.equilibriumConstant _ r _ _ _ = K
    have hvar := (Factor.var (σ := σ.setVar "Kc" K) "kf").term
    have hp := ((sideProduct_term {} hw hvar).div (Factor.var "Kc")).value
    simp only [row_update_var_eq, var_update_var, if_true, show ("kf" : String) ≠ "Kc" by decide,
      if_false, hkf hnil] at hp
    simp only [runItems, Item.run, run_setCell "rev_rxn_rates" j hp, Option.bind_some,
      run_blank, reverseConstant, reverseFrom, hnil, hK, mul_div_assoc]
  · obtain ⟨kr, hkr, htr⟩ := Rate.arrhenius_ok ha b e
    refine ⟨[], _, by simp [hexp], reverseRate_eq h.products.toSide j
      (by simp only [hexp, Rate.arrheniusOf_cons, hkr]; rfl),
      fun σ _ => ⟨σ.var "Kc", ?_⟩⟩
    simp only [nil_append, runItems, Item.run, setVar_self, run_blank, Option.bind_some,
      run_setCell "rev_rxn_rates" j (sideProduct_term {} hw (htr σ)).value, reverseConstant,
      reverseFrom, hexp]

lemma reactionRateItems_run (h : ArrheniusReaction sp.length r) (rs : List (Reaction ℕ Exact)) (label : ℤ) (i : ℕ) :
    ∃ items, Emit.reactionRateItems sp rs label r i = .ok items ∧ ∀ σ, ∃ τ, runItems σ items = some τ ∧
      τ.row "fwd_rxn_rates" i = monomial (σ.row "C") (r.reactants.zip r.reactantNu) *
        forwardConstant r (σ.var "T") (σ.var "logT") ∧
      (r.reversible = true → τ.row "rev_rxn_rates" (Emit.reverseRank rs i) =
        monomial (σ.row "C") (r.products.zip r.productNu) *
          reverseConstant sp r (σ.var "T") (σ.var "logT") (σ.var "Kc")) := by
  obtain ⟨constant, forward, hc, hfwd, hfr⟩ := forwardItems_run h i
  obtain ⟨equilibrium, rate, he, hrt, hrr⟩ := reverseItems_run h (Emit.reverseRank rs i)
  have hs : ∀ (σ : Memory) (rest : List (Item Exact)), runItems σ
      ([.step (.remark ("rxn " ++ toString label)), Emit.rateLoads rs r i] ++ rest) = runItems σ rest := fun _ _ => rfl
  rcases Bool.eq_false_or_eq_true r.reversible with hrev | hrev
  · refine ⟨[.step (.remark ("rxn " ++ toString label)), Emit.rateLoads rs r i] ++ constant ++
      [.step forward] ++ (equilibrium ++ [.step rate, .step .blank]), ?_, fun σ => ?_⟩
    · simp only [Emit.reactionRateItems, hc, hfwd, hrt, hrev]
      cases hem : r.reverse.isEmpty <;>
        simp only [hem, if_true, Bool.false_eq_true, if_false] at he ⊢ <;>
        rw [he] <;> rfl
    · obtain ⟨kf, hf, hkf⟩ := hfr σ
      obtain ⟨Kc, hr⟩ := hrr ((σ.setVar "kf" kf).setRow "fwd_rxn_rates" i
        (monomial (σ.row "C") (r.reactants.zip r.reactantNu) * forwardConstant r (σ.var "T") (σ.var "logT"))) (fun hnil => by simpa using hkf hrev hnil)
      refine ⟨_, by rw [runItems_append, append_assoc, hs, hf, Option.bind_some, hr], ?_, fun _ => ?_⟩
      · simp
      · simp [row_update_row_of_ne (show ("C" : String) ≠ "fwd_rxn_rates" by decide)]
  · refine ⟨[.step (.remark ("rxn " ++ toString label)), Emit.rateLoads rs r i] ++ constant ++
      [.step forward] ++ [], ?_, fun σ => ?_⟩
    · simp only [Emit.reactionRateItems, hc, hfwd, hrev]
      rfl
    · obtain ⟨kf, hf, -⟩ := hfr σ
      refine ⟨_, by rw [append_nil, append_assoc, hs, hf], by simp, by simp [hrev]⟩

/-- The rate functions start with the logarithm of the temperature. -/
noncomputable abbrev withLog (σ : Memory) : Memory := σ.setVar "logT" (Real.log (σ.var "T"))

noncomputable abbrev withMoles (σ : Memory) : Memory :=
  (withLog σ).setVar "m" (σ.var "pres" / ((gasConstant : Exact).toReal * σ.var "T"))

lemma logT_value {σ : Memory} : (Expr.log .T).value σ = some (Real.log (σ.var "T")) :=
  (Factor.log (Factor.var "T").value).value

lemma rateIntro_run (t : Emit.Target) (reversible : Bool) (rs : List (Reaction ℕ Exact)) (σ : Memory) :
    runSteps σ (Emit.rateIntro t reversible rs) = some (withLog σ) := by
  have hi : ∀ τ, runSteps τ (Emit.rateDeclarations t reversible rs) = some τ := by
    intro τ
    unfold Emit.rateDeclarations
    dsimp only
    split_ifs <;> rfl
  cases hb : t.bank.isSome <;>
    simp only [Emit.rateIntro, hb, flatten_cons, runSteps_append, runSteps, Step.run,
      logT_value, hi, Option.bind_some, if_true, Bool.false_eq_true, if_false] <;> rfl

lemma modificationStart_run (t : Emit.Target) (σ : Memory) :
    runSteps σ (Emit.modificationStart t) = some (withMoles σ) := by
  obtain ⟨τ, hτ⟩ : ∃ τ : Memory, τ = withLog σ := ⟨_, rfl⟩
  have ht : (Expr.pres / .group (.sci 8 gasConstant * .T) : Expr Exact).value τ =
      some (τ.var "pres" / ((gasConstant : Exact).toReal * τ.var "T")) :=
    ((Factor.var "pres").term.div (Factor.group ((Factor.number _ _).term.mul (Factor.var "T").term).value)).value
  have hp : τ.var "pres" = σ.var "pres" := by simp [hτ]
  have hT : τ.var "T" = σ.var "T" := by simp [hτ]
  rw [hp, hT] at ht
  rw [Emit.modificationStart, withMoles, ← hτ]
  split
  · simp only [Emit.Target.localReal, runSteps, Step.run, logT_value, Option.bind_eq_bind, Option.bind_some,
      foldl_cons, foldl_nil, ← hτ, ht, Option.pure_def]
  · simp only [runSteps, run_setVar "logT" logT_value, Option.bind_some, ← hτ, run_setVar "m" ht, run_blank]

lemma modificationLoads_run (r : Reaction ℕ Exact) (σ : Memory) (rest : List (Item Exact)) :
    runItems σ (Emit.modificationLoads r ++ rest) = runItems σ rest := by
  unfold Emit.modificationLoads
  split <;> rfl

lemma modificationItems_run (h : SimpleReaction n r) (l : Language) (label : ℤ) (k : ℕ) :
    ∃ items, Emit.modificationItems l label r k = .ok items ∧ ∀ σ, ∃ τ,
      runItems σ items = some τ ∧ (r.thirdBody = true → τ.row "pres_mod" k =
        thirdBodies (σ.var "m") (σ.row "C") r.efficiencies) := by
  refine ⟨_, by simp only [Emit.modificationItems, h.falloff]; rfl, fun σ => ?_⟩
  simp only [cons_append, runItems, Item.run, Step.run, modificationLoads_run, runItems_steps]
  cases hb : r.thirdBody
  · exact ⟨σ, rfl, fun h => by cases h⟩
  · refine ⟨σ.setRow "pres_mod" k (thirdBodies (σ.var "m") (σ.row "C") r.efficiencies), ?_, fun _ => by simp⟩
    simp only [if_true, singleton_append, runSteps,
      run_setCell "pres_mod" k (thirdBodySum_value σ "C" r.efficiencies), Option.bind_some, run_blank]

end

/-! ## Their derivative -/

section
variable {r : Reaction ℕ Exact}

/-- The rates as products of concentrations; `before` is what `Kc` holds at the start. -/
def ratesAt (r : Reaction ℕ Exact) (before : ℝ) (m : Mixture) : Rates where
  forward := monomial m.concentration (r.reactants.zip r.reactantNu) * forwardConstant r m.T (Real.log m.T)
  reverse := if r.reversible then monomial m.concentration (r.products.zip r.productNu) *
    reverseConstant m.species r m.T (Real.log m.T) before else 0
  modification := if r.thirdBody then
    thirdBodies (m.P / ((gasConstant : Exact).toReal * m.T)) m.concentration r.efficiencies else 1

variable {m : Mixture}

/-- The emitted rates, from what the statements of the modification code compute. -/
lemma emittedRates_of_modification (h : ArrheniusReaction m.count r) (t : Emit.Target)
    (rs : List (Reaction ℕ Exact)) (label : ℤ) (i : ℕ) (μ : Memory) {items : List (Item Exact)} {v : ℝ}
    (hi : Emit.modificationItems t.language label r ((rs.take i).countP (·.isModified)) = .ok items)
    (hrun : ∀ σ : Memory, σ.var "T" = m.T → σ.var "logT" = Real.log m.T →
      σ.var "m" = m.P / ((gasConstant : Exact).toReal * m.T) → σ.row "C" = m.concentration →
      ∃ τ, runItems σ items = some τ ∧ (r.isModified = true → τ.row "pres_mod" ((rs.take i).countP (·.isModified)) = v))
    (hone : r.isModified = false → v = 1) :
    emittedRates t rs label r i μ m = some { ratesAt r (μ.var "Kc") m with modification := v } := by
  have h' : ArrheniusReaction m.species.length r := h
  obtain ⟨rates, hrt, hrr⟩ := reactionRateItems_run h' rs label i
  obtain ⟨σ, hσ, hf, hrv⟩ := hrr (withLog (m.memory μ))
  obtain ⟨τ, hτ, hmod⟩ := hrun (withMoles (m.memory μ)) (by simp) (by simp) (by simp) (by simp)
  simp only [emittedRates, hrt, hi, Except.toOption, runItems_append, runItems_steps, rateIntro_run,
    modificationStart_run, Option.bind_eq_bind, Option.bind_some, hσ, hτ]
  rw [ratesAt]
  congr 2
  · cases hr : r.reversible with
    | false => rfl
    | true => exact hrv hr
  · cases hm : r.isModified with
    | false => exact (hone hm).symm
    | true => exact hmod hm

/-- The emitted statements run at every mixture and compute these rates. -/
lemma emittedRates_eq (h : SimpleReaction m.count r) (t : Emit.Target)
    (rs : List (Reaction ℕ Exact)) (label : ℤ) (i : ℕ) (μ : Memory) :
    emittedRates t rs label r i μ m = some (ratesAt r (μ.var "Kc") m) := by
  have hmd : r.isModified = r.thirdBody := by simp [Reaction.isModified, h.falloff]
  obtain ⟨items, hi, hrun⟩ := modificationItems_run h t.language label ((rs.take i).countP (·.isModified))
  refine emittedRates_of_modification h.arrhenius t rs label i μ hi (fun σ _ _ hm hC => ?_) fun hb => ?_
  · obtain ⟨τ, hτ, hmod⟩ := hrun σ
    refine ⟨τ, hτ, fun hb => ?_⟩
    rw [hmod (hmd ▸ hb), hm, hC, if_pos (hmd ▸ hb)]
  · rw [if_neg (by simp [← hmd, hb])]

lemma hasDerivAt_thirdBodies {c : ℝ → ℕ → ℝ} {x a u v : ℝ} {j l : ℕ} (total : ℝ) (h : ∀ k, HasDerivAt (fun y => c y k)
      (-a * c x k + (if k = j then u else 0) + (if k = l then v else 0)) x)
    (hn : (r.efficiencies.map (·.1)).Nodup) :
    HasDerivAt (fun y => thirdBodies total (c y) r.efficiencies) (-a * (thirdBodies total (c x) r.efficiencies - total)
        + u * ((Jacobian.efficiencyOf r j).toReal - 1) + v * ((Jacobian.efficiencyOf r l).toReal - 1))
      x := by
  have hsum : ∀ es : List (ℕ × Exact), HasDerivAt (fun y => (es.map fun t => (t.2.toReal - 1) * c y t.1).sum)
      (-a * (es.map fun t => (t.2.toReal - 1) * c x t.1).sum
        + u * (es.map fun t => if t.1 = j then t.2.toReal - 1 else 0).sum
        + v * (es.map fun t => if t.1 = l then t.2.toReal - 1 else 0).sum) x := by
    intro es
    induction es with
    | nil => simpa using hasDerivAt_const x (0 : ℝ)
    | cons t es ih =>
      simp only [map_cons, sum_cons]
      refine (((h t.1).const_mul (t.2.toReal - 1)).add ih).congr_deriv ?_
      split_ifs <;> ring
  have hall := (hsum r.efficiencies).const_add total
  rw [sum_efficiencies r hn, sum_efficiencies r hn] at hall
  refine hall.congr_deriv ?_
  simp only [thirdBodies]
  ring

/-- The slope of the net rate by the concentration of a species. -/
def netSlope (r : Reaction ℕ Exact) (kf kr : ℝ) (c : ℕ → ℝ) (s : ℕ) : ℝ := kf * slope c s (r.reactants.zip r.reactantNu)
    - (if r.reversible then kr * slope c s (r.products.zip r.productNu) else 0)

/-- Each rate times the number of concentrations in it. -/
def orderedRates (r : Reaction ℕ Exact) (q : Rates) : ℝ := totalOrder (r.reactants.zip r.reactantNu) * q.forward
    - totalOrder (r.products.zip r.productNu) * q.reverse

/-- The slope of the modification by a mass fraction. -/
def thirdBodySlope (m : Mixture) (r : Reaction ℕ Exact) (q : Rates) (j : ℕ) : ℝ := if r.thirdBody then
    m.fractionSlope j (q.modification - m.P / ((gasConstant : Exact).toReal * m.T))
      ((Jacobian.efficiencyOf r j).toReal - 1) ((Jacobian.efficiencyOf r (m.count - 1)).toReal - 1)
  else 0

lemma hasDerivAt_net {j : ℕ} (r : Reaction ℕ Exact) (before : ℝ) (hj : j + 1 < m.count) (hm : m.moles ≠ 0) :
    let kf := forwardConstant r m.T (Real.log m.T)
    let kr := reverseConstant m.species r m.T (Real.log m.T) before
    HasDerivAt (fun x => (ratesAt r before (m.withFraction j x)).forward -
        (ratesAt r before (m.withFraction j x)).reverse)
      (m.fractionSlope j (orderedRates r (ratesAt r before m)) (netSlope r kf kr m.concentration j)
        (netSlope r kf kr m.concentration (m.count - 1))) (m.Y j) := by
  intro kf kr
  have hc := fun k => Mixture.hasDerivAt_concentration hj hm k
  have hf := (hasDerivAt_monomial (r.reactants.zip r.reactantNu) fun t _ => hc t.1).mul_const kf
  have hrv := (hasDerivAt_monomial (r.products.zip r.productNu) fun t _ => hc t.1).mul_const kr
  rw [m.withFraction_self] at hf hrv
  unfold Mixture.fractionSlope
  cases hr : r.reversible
  · simp only [ratesAt, orderedRates, netSlope, hr, Bool.false_eq_true, if_false, sub_zero]
    refine hf.congr_deriv ?_
    ring
  · simp only [ratesAt, orderedRates, netSlope, hr, if_true]
    refine (hf.sub hrv).congr_deriv ?_
    ring

lemma hasDerivAt_progress {j : ℕ} (h : SimpleReaction m.count r) (before : ℝ)
    (hj : j + 1 < m.count) (hm : m.moles ≠ 0) :
    let q := ratesAt r before m
    let kf := forwardConstant r m.T (Real.log m.T)
    let kr := reverseConstant m.species r m.T (Real.log m.T) before
    HasDerivAt (fun x => (ratesAt r before (m.withFraction j x)).progress)
      (thirdBodySlope m r q j * (q.forward - q.reverse)
        + q.modification * m.fractionSlope j (orderedRates r q) (netSlope r kf kr m.concentration j)
          (netSlope r kf kr m.concentration (m.count - 1))) (m.Y j) := by
  intro q kf kr
  have hbd := hasDerivAt_thirdBodies (m.P / ((gasConstant : Exact).toReal * m.T))
    (fun k => Mixture.hasDerivAt_concentration hj hm k) h.efficiencies
  rw [m.withFraction_self] at hbd
  have hmod : HasDerivAt (fun x => (ratesAt r before (m.withFraction j x)).modification)
      (thirdBodySlope m r q j) (m.Y j) := by
    cases hb : r.thirdBody
    · simpa only [ratesAt, thirdBodySlope, hb, Bool.false_eq_true, if_false] using hasDerivAt_const (m.Y j) (1 : ℝ)
    · simp only [ratesAt, thirdBodySlope, q, hb]
      exact hbd
  have hp := hmod.mul (hasDerivAt_net r before hj hm)
  rw [m.withFraction_self] at hp
  exact hp

end

end

end Kinetics
