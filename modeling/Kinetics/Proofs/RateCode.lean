import Kinetics.Emit.PressureModification
import Kinetics.Proofs.RateNames
/-!
# What the code of all rates holds

The code of the rates of a reaction uses the work variables of its rate constant and, if the reverse
rate needs one, of its equilibrium constant (`batchRateItems_fits`). Neither this code nor that of
pressure modifications writes a concentration: both only read concentrations and ask for copies of
them (`batchRateItems_reads`, `allModificationItems_reads`).
-/

open List

namespace Kinetics.Code

@[simp] lemma readingGrammar_names (array name : String) : (readingGrammar array).names name ↔ name ≠ array := Iff.rfl

lemma readingGrammar_stateful {array : String} (h : array ∉ scratchNames) : (readingGrammar array).Stateful where
  flawed := trivial
  loose := trivial
  reads _ _ := (em _).symm
  sets _ hn := ne_of_mem_of_not_mem hn h

instance : (readingGrammar "C").Stateful := readingGrammar_stateful (by decide)

end Kinetics.Code

namespace Kinetics.Emit

open Code Rate Std.Do

set_option mvcgen.warning false

variable {α : Type} [Arithmetic α]

/-! ## Rates of a reaction -/

section Fits
variable {G : Grammar} [G.Stateful] {r : Reaction ℕ α}

lemma rateConstantItems_fits : Yields (fun items => ∀ i ∈ items, i.Fits G) (rateConstantItems r) := by
  refine triple_iff_yields.1 ?_
  mvcgen [rateConstantItems] with simp_all

lemma equilibriumItems_fits (sp : List (Species α)) :
    Yields (fun items => ∀ i ∈ items, i.Fits G) (equilibriumItems sp r) := by
  refine yields_bind fun net => yields_bind fun shares => yields_bind fun power => yields_pure.2 ?_
  exact forall_mem_append.2 ⟨exponentItems_fits true shares, by simp⟩

omit [Arithmetic α] [G.Stateful] in
lemma productOf_fits {factors : List (Expr α × Gap)} {last : Expr α} (h : ∀ f ∈ factors, f.1.Fits G)
    (hl : last.Fits G) : (productOf factors last).Fits G := by
  have ht : ∀ {gap : Gap} {a b : Expr α}, a.Fits G → b.Fits G → (Expr.binary .times gap a b).Fits G :=
    fun ha hb => ⟨.inl ha, .inr (.inl (by decide)), hb⟩
  cases factors with
  | nil => exact hl
  | cons first rest =>
    rw [forall_mem_cons] at h
    have hf : ∀ (fs : List (Expr α × Gap)) (p : Expr α × Gap), p.1.Fits G → (∀ f ∈ fs, f.1.Fits G) →
        (fs.foldl (fun p f => (.binary .times p.2 p.1 f.1, f.2)) p).1.Fits G := by
      intro fs
      induction fs with
      | nil => exact fun p hp _ => hp
      | cons f fs ih =>
        intro p hp hfs
        rw [forall_mem_cons] at hfs
        exact ih _ (ht hp hfs.1) hfs.2
    exact ht (hf rest first h.1 h.2) hl

variable (hC : G.names "C" ∨ G.sources "C")
include hC

omit [G.Stateful] in
lemma concentrationFactors_fits (gap : Gap) (s : ℕ) (nu : α) : ∀ f ∈ concentrationFactors gap s nu, f.1.Fits G := by
  unfold concentrationFactors
  split
  · intro f hf
    rw [eq_of_mem_replicate hf]
    exact hC
  · exact forall_mem_singleton.2 (by simp [hC])

lemma forwardRate_fits (hrates : G.names "fwd_rxn_rates") (i : ℕ) : Yields (Step.Fits G) (forwardRate r i) := by
  refine (yields_mapM (P := fun fs => ∀ f ∈ fs, f.1.Fits G) fun x _ => yields_bind fun nu =>
    yields_pure.2 (concentrationFactors_fits hC _ _ _)).bind fun factors hf => ?_
  have hr : ∀ k : Expr α, k.Fits G → (Step.set (.cell "fwd_rxn_rates" i) (productOf factors.flatten k)).Fits G :=
    fun k hk => fits_set.2 ⟨hrates, productOf_fits (forall_mem_flatten.2 hf) hk⟩
  split
  · exact yields_pure.2 (hr _ (by simp))
  · exact (arrhenius_fits _ _ _).bind fun k hk => yields_pure.2 (hr k hk)

lemma reverseRate_fits (hrates : G.names "rev_rxn_rates") (j : ℕ) : Yields (Step.Fits G) (reverseRate r j) := by
  refine (yields_mapM (P := fun fs => ∀ f ∈ fs, f.1.Fits G) fun x _ => yields_bind fun nu =>
    yields_pure.2 (concentrationFactors_fits hC _ _ _)).bind fun factors hf => ?_
  have hp : ∀ k : Expr α, k.Fits G → (productOf factors.flatten k).Fits G := fun k hk =>
    productOf_fits (forall_mem_flatten.2 hf) hk
  split
  · exact yields_pure.2 ⟨hrates, fits_div.2 ⟨hp _ (by simp), by simp⟩⟩
  · exact (arrheniusOf_fits (G := G) _).bind fun k hk => yields_pure.2 ⟨hrates, hp k hk⟩

omit hC [G.Stateful] in
lemma forwardRate_target (r : Reaction ℕ α) (i : ℕ) :
    Yields (fun s => ∃ value, s = .set (.cell "fwd_rxn_rates" i) value) (forwardRate r i) := by
  refine yields_bind fun factors => ?_
  split
  · exact yields_pure.2 ⟨_, rfl⟩
  · exact yields_bind fun constant => yields_pure.2 ⟨_, rfl⟩

omit hC [G.Stateful] in
lemma reverseRate_target (r : Reaction ℕ α) (j : ℕ) :
    Yields (fun s => ∃ value, s = .set (.cell "rev_rxn_rates" j) value) (reverseRate r j) := by
  refine yields_bind fun factors => ?_
  split
  · exact yields_pure.2 ⟨_, rfl⟩
  · exact yields_bind fun constant => yields_pure.2 ⟨_, rfl⟩

variable (hshared : G.shares ∨ G.sources "C") (hrates : G.names "fwd_rxn_rates" ∧ G.names "rev_rxn_rates")
include hshared hrates

lemma reactionRateItems_fits (sp : List (Species α)) (rs : List (Reaction ℕ α)) (label : ℤ) (i : ℕ) :
    Yields (fun items => ∀ i ∈ items, i.Fits G) (reactionRateItems sp rs label r i) := by
  have hl : (rateLoads rs r i).Fits G := forall_mem_map.2 fun s _ => ⟨hshared, by simp⟩
  have hc := triple_iff_yields.2 (rateConstantItems_fits (G := G) (r := r))
  have hf := triple_iff_yields.2 (forwardRate_fits (r := r) hC hrates.1 i)
  have hr := triple_iff_yields.2 (reverseRate_fits (r := r) hC hrates.2 (reverseRank rs i))
  have he := triple_iff_yields.2 (equilibriumItems_fits (G := G) (r := r) sp)
  refine triple_iff_yields.1 ?_
  mvcgen [reactionRateItems, hc, hf, hr, he] with simp_all +zetaDelta [or_imp]

lemma batchRateItems_fits (sp : List (Species α)) (rs : List (Reaction ℕ α)) (labels : List ℤ) (batch : Batch) :
    Yields (fun items => ∀ i ∈ items, i.Fits G) (batchRateItems sp rs labels batch) := by
  refine (yields_mapM (P := fun items => ∀ i ∈ items, i.Fits G) fun x _ => ?_).bind fun items hi =>
    yields_pure.2 (forall_mem_flatten.2 hi)
  exact yields_bind fun label => reactionRateItems_fits hC hshared hrates sp rs label x.2

end Fits

/-! ## Reading concentrations -/

lemma batchRateItems_reads (sp : List (Species α)) (rs : List (Reaction ℕ α)) (labels : List ℤ)
    (batch : Batch) : Yields (fun items => ∀ i ∈ items, i.Fits (readingGrammar "C"))
      (batchRateItems sp rs labels batch) :=
  batchRateItems_fits (.inr rfl) (.inr rfl) (by simp) sp rs labels batch

section Modification
variable (r : Reaction ℕ α)

@[spec] lemma troeSteps_reads :
    ⦃⌜True⌝⦄ troeSteps r ⦃⇓? steps => ⌜∀ s ∈ steps, s.Fits (readingGrammar "C")⌝⦄ := by
  mvcgen [troeSteps, decay, barrier] with simp_all +zetaDelta [Expr.Fits, logPr, Rate.Pr]

omit [Arithmetic α] in
lemma applyLimit_reads {factor : Expr α} (h : factor.Fits (readingGrammar "C")) :
    (applyLimit r factor).Fits (readingGrammar "C") := by
  unfold applyLimit
  repeat' split
  all_goals simp [Rate.Pr, onePlusPr, h]

omit [Arithmetic α] in
lemma plainModification_reads : (plainModification r).Fits (readingGrammar "C") := by
  unfold plainModification
  repeat' split
  all_goals simp [Rate.Pr, onePlusPr]

@[spec] lemma falloffSteps_reads (k : ℕ) : ⦃⌜True⌝⦄ falloffSteps "C" (.cell "pres_mod" k) r
    ⦃⇓? steps => ⌜∀ s ∈ steps, s.Fits (readingGrammar "C")⌝⦄ := by
  have hf : (troeFactor : Expr α).Fits (readingGrammar "C") := by simp [troeFactor, troeDenominator]
  have hc (s : ℕ) : (Expr.cell "C" s : Expr α).Fits (readingGrammar "C") := .inr rfl
  have ht : (thirdBodySum "C" r.efficiencies).Fits (readingGrammar "C") := thirdBodySum_fits (.inr rfl) _
  mvcgen [falloffSteps, lowLimit, highLimit, arrheniusOf]
  all_goals cases hr : r.collider <;> simp_all +zetaDelta [-fits_cell, or_imp, applyLimit_reads,
    plainModification_reads, sriExponent, logPr, Rate.Pr]

lemma modificationItems_reads (l : Language) (label : ℤ) (k : ℕ) :
    Yields (fun items => ∀ i ∈ items, i.Fits (readingGrammar "C")) (modificationItems l label r k) := by
  have hl : ∀ i ∈ modificationLoads r, i.Fits (readingGrammar "C") := by
    unfold modificationLoads
    split
    · simp
    · exact forall_mem_singleton.2 (forall_mem_map.2 fun s _ => ⟨.inr rfl, by simp⟩)
  have ht : (thirdBodySum "C" r.efficiencies).Fits (readingGrammar "C") := thirdBodySum_fits (.inr rfl) _
  refine triple_iff_yields.1 ?_
  mvcgen [modificationItems]
  all_goals cases r.thirdBody <;> simp_all +zetaDelta [or_imp, forall_and] <;> exact .inr trivial

end Modification

lemma allModificationItems_reads (l : Language) (rs : List (Reaction ℕ α)) (labels : List ℤ) :
    Yields (fun items => ∀ i ∈ items, i.Fits (readingGrammar "C")) (allModificationItems l rs labels) := by
  refine (yields_mapM (P := fun items => ∀ i ∈ items, i.Fits (readingGrammar "C")) fun x _ => ?_).bind
    fun items hi => yields_pure.2 (forall_mem_flatten.2 hi)
  exact yields_bind fun label => modificationItems_reads x.1.1 l label x.2

end Kinetics.Emit
