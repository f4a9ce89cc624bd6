import Kinetics.Proofs.NumberedFunctions
import Kinetics.Proofs.ThermodynamicConsistency
/-!
# What the main function of a Jacobian holds

The code of the main function apart from the reaction loop has no flaws. Only the statements of its
last part write the matrix.
-/

open List

namespace Kinetics

lemma forall_mem_if {β : Type} {P : β → Prop} {c : Prop} [Decidable c] {xs ys : List β} (hx : ∀ x ∈ xs, P x)
    (hy : ∀ y ∈ ys, P y) : ∀ x ∈ if c then xs else ys, P x := by
  split
  · exact hx
  · exact hy

end Kinetics

namespace Kinetics.Code

lemma sumOf_fits {α : Type} {G : Grammar} (gap : Gap) {terms : List (Expr α)} (hne : terms ≠ [])
    (h : ∀ e ∈ terms, e.Fits G) : (sumOf gap terms).Fits G := by
  cases terms with
  | nil => exact absurd rfl hne
  | cons e es =>
    rw [forall_mem_cons] at h
    induction es generalizing e with
    | nil => exact h.1
    | cons d es ih =>
      rw [forall_mem_cons] at h
      exact ih (.binary .plus gap e d) (cons_ne_nil _ _) ⟨⟨.inl h.1, .inr (.inl (by decide)), h.2.1⟩, h.2.2⟩

end Kinetics.Code

namespace Kinetics.Jacobian

open Code Emit Rate

variable {α : Type} {G : Grammar}

@[simp] lemma state_calm (calls : Prop) : (Expr.T : Expr α).Fits (calmGrammar calls) ∧
    (Expr.pres : Expr α).Fits (calmGrammar calls) := ⟨.inl (by simp), .inl (by simp)⟩

section Main
variable {t : Target}

@[simp] lemma double_fits (name : String) (names : List String) (size : Option ℤ) (value : Option (Expr α)) :
    (Step.declare 2 "double" (name :: names) size value .semicolon).Fits G ↔
      (∀ x ∈ name :: names, G.Declares x) ∧ ∀ e ∈ value, e.Fits G :=
  and_iff_right (.inl ⟨by simp, by simp, by simp⟩)

lemma real_mem (t : Target) : t.real ∈ ["double", "double*", "adouble", "adouble*"] ∧
    t.real ++ "*" ∈ ["double", "double*", "adouble", "adouble*"] := by
  unfold Target.real
  split <;> simp

variable {array : String}

lemma nullArray_fits (ha : G.names array) : (nullArray t array : Step α).Fits G :=
  ⟨.inl ⟨(real_mem t).2, by simp, by simp⟩, forall_mem_singleton.2 (.inl ha), by simp⟩

lemma compositionEntry_fits (n k j : ℕ) : (compositionEntry n k j : Expr α).Settable wholeGrammar ∧
    (compositionEntry n k j : Expr α).Fits wholeGrammar := by
  unfold compositionEntry
  split <;> simp

lemma not_onDevice (ht : t.language = .c) : t.onDevice ≠ true := by simp [Target.onDevice, ht]

section Host
variable (ht : t.language = .c)

include ht

lemma localReal_fits {name : String} {value : Option (Expr α)} (hn : G.Declares name)
    (hv : ∀ e ∈ value, e.Fits G) : (t.localReal name value).Fits G := by
  refine ⟨?_, forall_mem_singleton.2 hn, hv⟩
  rw [if_neg (not_onDevice ht)]
  exact .inl ⟨(real_mem t).1, by simp, by simp⟩

lemma workArray_fits (ha : G.names array) (n : ℕ) (memory : String) :
    Yields (Step.Fits (α := α) G) (workArray t array n memory) := by
  unfold workArray
  rw [if_neg (not_onDevice ht)]
  exact yields_pure.2 ⟨.inl ⟨(real_mem t).1, by simp, by simp⟩, forall_mem_singleton.2 (.inl ha), by simp⟩

lemma calmArray_fits (array : String) (ha : array ≠ "jac" ∧ array ≠ "J_nplusjplus") (n : ℕ) (memory : String) :
    Yields (Step.Fits (α := α) (calmGrammar True)) (workArray t array n memory) := workArray_fits ht ha n memory

lemma calmReal_fits {name : String} {value : Option (Expr α)} (hn : (calmGrammar True).Declares name)
    (hv : ∀ e ∈ value, e.Fits (calmGrammar True)) : (t.localReal name value).Fits (calmGrammar True) :=
  localReal_fits ht hn hv

lemma mainStart_fits (sp : List (Species α)) (rs : List (Reaction ℕ α)) :
    Yields (fun steps => ∀ s ∈ steps, s.Fits (calmGrammar True)) (mainStart t sp rs) := by
  have hz : ∀ n : ℕ, "spec_rates[" ++ toString n ++ "]" ≠ "jac" ∧ "spec_rates[" ++ toString n ++ "]" ≠ "J_nplusjplus" := by
    intro n
    have hne : ∀ name : String, name.toList.head? ≠ some 's' → "spec_rates[" ++ toString n ++ "]" ≠ name := by
      rintro _ hn rfl
      simp at hn
    exact ⟨hne _ (by decide), hne _ (by decide)⟩
  have hl : (fractionsAddress t "y" : Expr α) = .address (.cell "y" 1) := by
    rw [fractionsAddress, if_neg (not_onDevice ht)]
  refine (calmArray_fits ht "dot_prod" (by simp) _ _).bind fun partialSums hp => ?_
  refine (calmArray_fits ht "spec_rates" (by simp) _ _).bind fun rates hr => ?_
  refine (calmArray_fits ht "conc" (by simp) _ _).bind fun concentrations hcn => ?_
  refine (calmArray_fits ht "fwd_rates" (by simp) _ _).bind fun forward hfw => ?_
  refine yields_joined (fun _ => yields_pure.2 (nullArray_fits (by simp)))
    (fun _ => calmArray_fits ht _ (by simp) _ _) fun reverse hrv => ?_
  refine yields_joined (fun _ => yields_pure.2 (nullArray_fits (by simp)))
    (fun _ => calmArray_fits ht _ (by simp) _ _) fun modification hm => yields_pure.2 ?_
  simp only [flatten_cons, flatten_nil, append_nil, forall_mem_append]
  refine ⟨by simp, by simp [Target.freshBank, not_onDevice ht], ?_, forall_mem_if (by simp [hp]) (by simp), ?_,
    forall_mem_if (by simp) ?_, by simp, forall_mem_if (by simp [hr]) ?_, by simp⟩
  · simp [plainDouble, hl, hcn, hfw, hrv]
  · simp [hm]
  · simp
  · exact forall_mem_singleton.2 ((double_fits _ _ _ _).2 ⟨forall_mem_singleton.2 (.inl (hz _)), by simp⟩)

lemma loopDeclarations_fits (rs : List (Reaction ℕ α)) :
    Yields (fun steps => ∀ s ∈ steps, s.Fits (calmGrammar True)) (loopDeclarations t rs) := by
  refine yields_joined (fun _ => calmArray_fits ht _ (by simp) _ _) (fun _ => yields_pure.2 (by simp))
    fun partialSums hp => yields_pure.2 ?_
  simp only [forall_mem_append, and_assoc]
  refine ⟨?_, forall_mem_if ?_ (by simp), forall_mem_if ?_ (by simp), forall_mem_if ?_ (by simp),
    forall_mem_if ?_ (by simp), forall_mem_if ?_ (by simp), forall_mem_if ?_ (by simp), forall_mem_if ?_ (by simp), ?_⟩
  all_goals simp [zeroed, calmReal_fits ht, plainDouble, troeDeclarations, chebyshevDeclarations, hp]

lemma mainDeclarations_fits [Arithmetic α] (split : Bool) (sp : List (Species α)) (rs : List (Reaction ℕ α)) :
    Yields (fun steps => ∀ s ∈ steps, s.Fits (calmGrammar True)) (mainDeclarations t split sp rs) := by
  refine yields_bind fun last => yields_joined (fun _ => yields_pure.2 (forall_mem_nil _))
    (fun _ => loopDeclarations_fits ht rs) fun work hwr => ?_
  refine yields_joined (Q := Step.Fits (calmGrammar True)) (fun hd => absurd hd (not_onDevice ht))
    (fun _ => yields_pure.2 ?_)
    fun column hcl => yields_pure.2 ?_
  · simp [plainDouble]
  simp only [forall_mem_append, and_assoc]
  refine ⟨forall_mem_if (forall_mem_cons.2 ⟨?_, forall_mem_if ?_ ?_⟩) (by simp), ?_, hwr, forall_mem_if ?_ (by simp)⟩
  all_goals simp [calmReal_fits ht, plainDouble, hcl]

/-- Between the loops only the first entry of the matrix is written. -/
lemma mainMiddle_parts [Arithmetic α] (sp : List (Species α)) : Yields (fun steps => ∃ front back,
    steps = front ++ [.set (.cell "jac" 0) 0.0] ++ back ∧ ∀ s ∈ front ++ back, s.Fits (calmGrammar True))
      (mainMiddle t false sp) := by
  have ha : (averageCapacity sp).Fits (calmGrammar True) := by
    unfold averageCapacity
    dsimp only
    split
    · simp
    · next hne => exact fits_add.2 ⟨.inl (sumOf_fits _ hne (forall_mem_map.2 fun x _ => by simp)), by simp⟩
  refine (calmArray_fits ht "h" (by simp) _ _).bind fun enthalpies he => ?_
  refine (calmArray_fits ht "cp" (by simp) _ _).bind fun capacities hc => yields_pure.2 ?_
  refine ⟨[.remark " species enthalpies", enthalpies, .call 2 "eval_h" false [.T, .var "h"], .blank,
    .remark " species specific heats", capacities, .call 2 "eval_cp" false [.T, .var "cp"], .blank,
    .remark " average specific heat", t.localReal "cp_avg" none, .setVar "cp_avg" (averageCapacity sp)], _, rfl, ?_⟩
  simp [he, hc, calmReal_fits ht, ha, finishRemarks]

end Host

@[simp] lemma firstColumn_whole (row : ℤ) : (Expr.firstColumn "jac" row : Expr α).Fits wholeGrammar ∧
    (Expr.firstColumn "jac" row : Expr α).Settable wholeGrammar := ⟨⟨trivial, trivial⟩, trivial, trivial⟩

lemma energyCompletion_fits {sp : List (Species α)} (hne : sp ≠ []) (lastTouched : Bool) :
    ∀ s ∈ energyCompletion sp lastTouched, s.Fits wholeGrammar := by
  have ht : ∀ e ∈ sp.zipIdx.map fun x => energyTerm sp.length x.2 x.1.weight lastTouched, e.Fits wholeGrammar := by
    rw [forall_mem_map]
    intro x _
    unfold energyTerm
    split
    · simp
    · split <;> simp
  have hs := sumOf_fits { breakBefore := .always 4 true, before := 0 } (by simpa using hne) ht
  simp [energyCompletion, hs]

variable [Arithmetic α]

lemma equilibriumSlopeItems_fits (ht : t.language = .c) (sp : List (Species α)) (rs : List (Reaction ℕ α)) :
    Yields (fun items => ∀ i ∈ items, i.Fits (calmGrammar False)) (equilibriumSlopeItems t.language sp rs) := by
  intro items hit i hi
  obtain ⟨type, size, value, ⟨rfl, rfl⟩ | ⟨hc, rfl⟩, rfl⟩ | ⟨midpoint, low, high, hst, rfl⟩ :=
    equilibriumSlopeItems_form t.language sp rs items hit i hi
  · simp
  · rw [ht] at hc
    cases hc
  · have hf : ∀ s ∈ low ++ high, s.Fits (calmGrammar False) := by
      intro s hs
      obtain ⟨k, p, rfl⟩ := hst s hs
      simp [gibbsSlope]
    rw [forall_mem_append] at hf
    exact ⟨.inl (by simp), hf⟩

lemma heatCapacityItems_fits (species : List (Species α)) :
    Yields (fun items => ∀ i ∈ items, i.Fits (calmGrammar False)) (heatCapacityItems species) := by
  have hb : ∀ (form : Form) (members : List ℕ) (range : Species α → Nasa α), members ≠ [] →
      Yields (fun steps : List (Step α) => ∀ s ∈ steps, s.Fits (calmGrammar False)) (do
        let terms ← members.mapM fun s => do
          let sp ← entryAt species s
          heatCapacitySlope species.length s sp.weight (range sp)
        return [Step.assign 4 (.var "working_temp") form
          (sumOf { breakBefore := .always 4 false, before := 0 } terms)]) := by
    intro form members range hne terms ht
    obtain ⟨terms, ha, hs⟩ := bind_eq_ok.1 ht
    cases hs
    have hsm : terms ≠ [] := by
      rintro rfl
      exact hne (forall₂_nil_right_iff.1 (mapM_eq_ok.1 ha))
    refine forall_mem_singleton.2 ⟨by simp, sumOf_fits _ hsm (yields_mapM (fun k _ => ?_) terms ha)⟩
    refine yields_bind fun sp => yields_bind fun quotient => yields_pure.2 ?_
    unfold massFraction
    split <;> simp
  refine yields_mapM fun x hx => ?_
  have hne := Emit.midpointGroups_ne_nil species x.1 (fst_mem_of_mem_zipIdx hx)
  refine (hb _ _ _ hne).bind fun low hl => (hb _ _ _ hne).bind fun high hh => yields_pure.2 ?_
  exact ⟨.inl (by simp), hl, hh⟩

lemma finishRun_fits (sp : List (Species α)) (produced : List Bool) (progress : Progress) (members : List (Species α × ℕ)) :
    Yields (fun steps => ∀ s ∈ steps, s.Fits wholeGrammar) (finishRun sp produced progress members) := by
  have he := compositionEntry_fits (α := α) sp.length
  have hs : ∀ k j weight written, (energyShare sp.length k j weight written : Expr α).Fits wholeGrammar ∧
      (-energyShare sp.length k j weight written : Expr α).Fits wholeGrammar := by
    intro k j weight written
    cases written <;> simp [energyShare, he]
  have hrw : ∀ k j weight written, ∀ s ∈ [if k = 0 then
      Step.assign 2 (.cell "jac" (sp.length * (j + 1) : ℕ)) .set (-energyShare sp.length k j weight written)
      else .assign 2 (.cell "jac" (sp.length * (j + 1) : ℕ)) .subtract
        (energyShare sp.length k j weight written)], (s : Step α).Fits wholeGrammar := by
    intro k j weight written
    split <;> simp [hs]
  refine (yields_mapM (P := fun steps => ∀ s ∈ steps, s.Fits wholeGrammar) fun x _ => ?_).bind fun blocks hb =>
    yields_pure.2 (forall_mem_flatten.2 hb)
  refine (yields_mapM (P := fun steps => ∀ s ∈ steps, s.Fits wholeGrammar) fun y _ => ?_).bind fun rows hr =>
    yields_pure.2 (forall_mem_flatten.2 hr)
  cases progress.composition.contains x.2 with
  | true =>
    refine yields_bind fun last => (yields_bind fun ratio => yields_bind fun share => yields_pure.2 ?_).bind
      fun term ht => yields_pure.2 (forall_mem_cons.2 ⟨⟨(he _ _).1, ht⟩, hrw _ _ _ _⟩)
    simp
  | false =>
    refine yields_bind (x := entryAt produced x.2) fun kept => ?_
    cases kept with
    | true => exact yields_pure.2 (hrw _ _ _ _)
    | false => exact yields_pure.2 (forall_mem_nil _)

end Main

end Kinetics.Jacobian
