import Kinetics.Emit.StateDerivative
import Kinetics.Proofs.ThermodynamicConsistency
/-!
# The two energy equations

The file of the state derivative holds the rate of change of temperature twice, at constant
pressure and at constant volume. The first is complete as soon as a species is produced. The second
is not (`energy_equations`): its first call lacks a comma, so it passes an argument too few, and no
sign stands before the last term of its average heat capacity.
-/

open List

namespace Kinetics.Emit

open Code Jacobian

/-! ## What statements call and assign -/

/-- The function that a statement calls, with the number of its arguments. -/
def callArity {α : Type} : Step α → Option (String × ℕ)
  | .call _ function _ arguments => some (function, arguments.length)
  | _ => none

/-- The functions that a file announces, with the numbers of their parameters. -/
def announced {α : Type} (file : SourceFile α) : List (String × ℕ) :=
  file.parts.filterMap fun
    | .prototype s => some (s.name, s.params.length)
    | _ => none

/-- What a statement puts into a place. -/
def assigned (p : Place) : Step Exact → Option (Expr Exact)
  | .assign _ target _ value => if target.location = some p then some value else none
  | .declare _ _ names _ (some value) _ => if p ∈ names.map (Place.cell · none) then some value else none
  | _ => none

/-- The statements of the functions that a file defines. -/
def bodies {α : Type} (file : SourceFile α) : List (List (Item α)) :=
  file.parts.filterMap fun
    | .function _ body _ => some body
    | _ => none

def plainC : Target := { language := .c }

section Steps
variable (reactions : List (Reaction ℕ Exact))

lemma progressSteps_plain : ∃ steps, progressSteps plainC reactions [] = .ok steps ∧
    steps.filterMap callArity = [("eval_rxn_rates", 5)] ∧
    ∀ p, p ≠ .cell "rev_rates" none → steps.filterMap (assigned p) = [] := by
  unfold progressSteps
  cases reactions.countP (·.reversible) with
  | zero =>
    refine ⟨_, rfl, rfl, fun p hp => ?_⟩
    simp [plainC, Target.onDevice, assigned, nullArray, Step.slashRemark, hp.symm]
  | succ k => exact ⟨_, rfl, rfl, fun _ _ => rfl⟩

def modificationArity : List (String × ℕ) := if reactions.any (·.isModified) then [("get_rxn_pres_mod", 4)] else []

lemma modificationCall_plain : ∃ steps, modificationCall plainC reactions = .ok steps ∧
    steps.filterMap callArity = modificationArity reactions ∧
    ∀ p, p ≠ .cell "pres_mod" none → steps.filterMap (assigned p) = [] := by
  have ha : reactions.any (·.isModified) = decide (reactions.countP (·.isModified) ≠ 0) := by
    rw [Bool.eq_iff_iff, any_eq_true, decide_eq_true_iff, Ne, countP_eq_zero]
    push Not
    rfl
  unfold modificationCall modificationArity
  rw [ha]
  cases reactions.countP (·.isModified) with
  | zero =>
    refine ⟨_, rfl, rfl, fun p hp => ?_⟩
    simp [assigned, nullArray, hp.symm]
  | succ k => exact ⟨_, rfl, rfl, fun _ _ => rfl⟩

end Steps

/-! ## Heat capacities and temperature rates -/

noncomputable section

section Values
variable {species : List (Species Exact)} {produced : List Bool} {σ : Memory}

/-- The net production rate of a species: that of the last one has a variable of its own. -/
def formationRate (σ : Memory) (n i : ℕ) : ℝ := if i + 1 < n then σ.row "dy" (i + 1) else σ.var "dy_N"

/-- The heat capacity of the mixture from those of all species. -/
def meanCapacity (heat : String) (n : ℕ) (σ : Memory) : ℝ :=
  ((range n).map fun i => σ.row heat i * fractionAt σ n i).sum

def isProduced (produced : List Bool) (x : Species Exact × ℕ) : Bool := produced[x.2]? = some true

/-- The energy that the produced species take up. -/
def energyUptake (energy : String) (species : List (Species Exact)) (produced : List Bool) (σ : Memory) : ℝ :=
  ((species.zipIdx.filter (isProduced produced)).map fun x =>
    formationRate σ species.length x.2 * σ.row energy x.2 * x.1.weight.toReal).sum

lemma heatTerms_terms (heat : String) (n : ℕ) : Forall₂ (Term σ) (heatTerms heat n)
    ((range (n - 1)).map fun i => σ.row heat i * fractionAt σ n i) := by
  rw [heatTerms, forall₂_map_left_iff, forall₂_map_right_iff, forall₂_same]
  intro i hi
  rw [fractionAt, if_neg (by have := mem_range.1 hi; omega)]
  exact (Factor.group ((Factor.cell heat i).term.mul (Factor.cell "y" (i + 1)).term).value).term

lemma lastHeatTerm_term (heat : String) (n : ℕ) :
    Term σ (lastHeatTerm heat (n + 1)) (σ.row heat n * fractionAt σ (n + 1) n) := by
  rw [fractionAt, if_pos rfl, lastHeatTerm, Nat.cast_succ, add_sub_cancel_right]
  exact (Factor.group ((Factor.cell heat n).term.mul (Factor.var "y_N").term).value).term

lemma averageHeat_value (gap : Gap) (heat : String) (n : ℕ) :
    (sumOf gap (heatTerms heat (n + 2)) + lastHeatTerm heat (n + 2)).value σ =
      some (meanCapacity heat (n + 2) σ) := by
  rw [value_add (sumOf_value gap (heatTerms_terms heat _) (by simp [heatTerms])) (lastHeatTerm_term heat (n + 1)),
    meanCapacity, range_succ (n := n + 1), map_append, sum_append, map_singleton, sum_singleton]
  rfl

lemma value_beside_group {a e : Expr Exact} {x : ℝ} (h : a.value σ = some x) :
    (Expr.beside a (.group e)).value σ = none := by
  obtain ⟨before, t, hr, -⟩ := value_eq_some.1 h
  have hb : (Expr.beside a (.group e)).read σ .start = (a.read σ .start).bind ((Expr.group e).read σ) := rfl
  rw [Expr.value, hb, hr, Option.bind_some, read_group]
  cases e.value σ <;> rfl

/-- The rate of change of temperature; without a produced species it has no value. -/
def temperatureSlope (energy average : String) (species : List (Species Exact)) (produced : List Bool)
    (σ : Memory) : Option ℝ :=
  if true ∈ produced then some (-1 / (σ.var "rho" * σ.var average) * energyUptake energy species produced σ) else none

def uptakeTerm (energy : String) (n : ℕ) (x : Species Exact × ℕ) : Expr Exact :=
  .group (producedCell plainC n x.2 * .cell energy x.2 * .full x.1.weight)

lemma uptakeTerm_term (energy : String) (n : ℕ) (x : Species Exact × ℕ) :
    Term σ (uptakeTerm energy n x) (formationRate σ n x.2 * σ.row energy x.2 * x.1.weight.toReal) := by
  have hc : Factor σ (producedCell plainC n x.2) (formationRate σ n x.2) := by
    unfold producedCell formationRate
    split
    · exact absurd ‹_› (by decide)
    · split
      · exact Factor.cell "dy" (x.2 + 1)
      · exact Factor.var "dy_N"
  exact (Factor.group ((hc.term.mul (Factor.cell energy x.2).term).mul (Factor.full _).term).value).term

lemma exists_produced (h : produced.length = species.length) :
    species.zipIdx.filter (isProduced produced) = [] ↔ true ∉ produced := by
  rw [filter_eq_nil_iff, mem_iff_getElem?]
  push Not
  constructor
  · intro hn i hi
    obtain ⟨hlt, -⟩ := List.getElem?_eq_some_iff.1 hi
    exact hn (species[i], i) (mk_mem_zipIdx_iff_getElem?.2 (List.getElem?_eq_getElem _))
      (by simpa [isProduced] using hi)
  · intro hn x _ hx
    exact hn x.2 (by simpa [isProduced] using hx)

lemma temperatureRate_plain (h : produced.length = species.length) (energy average : String) :
    ∃ e, temperatureRate plainC species produced energy average = .ok (.set (.cell "dy" 0) e) ∧
      ∀ σ, e.value σ = temperatureSlope energy average species produced σ := by
  have hf : species.zipIdx.filterMapM (fun x => do
      if ← entryAt produced x.2 then return some (uptakeTerm energy species.length x) else return none) =
      Except.ok (ε := Fault)
        ((species.zipIdx.filter (isProduced produced)).map (uptakeTerm energy species.length)) := by
    rw [← filterMap_eq_map, filterMap_filter]
    refine filterMapM_eq_ok_filterMap ?_
    rintro ⟨s, i⟩ hx
    have hi : i < produced.length := by
      rw [h]
      exact (List.getElem?_eq_some_iff.1 (mk_mem_zipIdx_iff_getElem?.1 hx)).1
    have hg := List.getElem?_eq_getElem hi
    dsimp only
    rw [entryAt_eq_ok.2 hg, ok_bind, isProduced, hg]
    cases produced[i] <;> rfl
  refine ⟨_, by rw [temperatureRate]; exact bind_eq_ok.2 ⟨_, hf, rfl⟩, fun σ => ?_⟩
  have hc : Factor σ (.group (-1.0 / .group (.var "rho" * .var average))) (-1 / (σ.var "rho" * σ.var average)) :=
    Factor.group ((Factor.one.neg rfl).term.div
      (Factor.group ((Factor.var "rho").term.mul (Factor.var average).term).value)).value
  have ht : ∀ xs : List (Species Exact × ℕ), Forall₂ (Term σ) (xs.map (uptakeTerm energy species.length))
      (xs.map fun x => formationRate σ species.length x.2 * σ.row energy x.2 * x.1.weight.toReal) := by
    intro xs
    rw [forall₂_map_left_iff, forall₂_map_right_iff, forall₂_same]
    exact fun x _ => uptakeTerm_term energy _ x
  unfold temperatureSlope
  split
  · next hm =>
    have hne : species.zipIdx.filter (isProduced produced) ≠ [] := fun hn => (exists_produced h).1 hn hm
    exact (hc.term.mul (Factor.group (sumOf_value _ (ht _) (by simpa using hne))).term).value
  · next hm =>
    rw [(exists_produced h).2 hm, Expr.value]
    change ((Expr.binary .times {} _ (.group .hole)).read σ .start).bind _ = _
    rw [read_binary, Scan.start, hc]
    rfl

lemma fractionRates_plain (species : List (Species Exact)) : (fractionRates plainC species).filterMap callArity = [] ∧
    ∀ p, (∀ i : ℕ, p ≠ .cell "dy" (some ((i + 1 : ℕ) : ℤ))) →
      (fractionRates plainC species).filterMap (assigned p) = [] := by
  have hr : fractionRates plainC species = species.dropLast.zipIdx.map fun x =>
      .assign 2 (.cell "dy" (x.2 + 1 : ℕ)) .multiply (.group (.full x.1.weight / .var "rho")) := rfl
  rw [hr]
  refine ⟨?_, fun p hp => ?_⟩
  · simp [callArity]
  · simpa [assigned, Expr.location, Expr.cell] using fun _ i _ => (hp i).symm

end Values

/-! ## The two functions -/

section Bodies
variable {species : List (Species Exact)} {produced : List Bool} (reactions : List (Reaction ℕ Exact))

/-- The only value that steps put into a place. -/
def Assigns (steps : List (Step Exact)) (p : Place) (f : Memory → Option ℝ) : Prop :=
  ∃ e, steps.filterMap (assigned p) = [e] ∧ ∀ σ, e.value σ = f σ

/-- The last steps of both functions, after the calls that give the energies. -/
lemma derivativeEnd_plain (h : produced.length = species.length) (energy average : String) :
    ∃ steps, derivativeEnd plainC species produced energy average = .ok steps ∧ steps.filterMap callArity = [] ∧
      (∀ name, steps.filterMap (assigned (.cell name none)) = []) ∧
      Assigns steps (.cell "dy" (some 0)) (temperatureSlope energy average species produced) := by
  obtain ⟨e, he, hv⟩ := temperatureRate_plain h energy average
  obtain ⟨hc, ha⟩ := fractionRates_plain species
  refine ⟨_, by rw [derivativeEnd, he]; rfl, ?_, fun name => ?_, e, ?_, hv⟩
  · rw [filterMap_append, filterMap_append, hc]
    rfl
  · rw [filterMap_append, filterMap_append, ha _ (by simp)]
    simp [assigned, Step.slashRemark, Step.set, Expr.location, Expr.cell]
  · rw [filterMap_append, filterMap_append, ha _ (fun i => by simp; omega)]
    rfl

variable (h2 : 2 ≤ species.length) (h : produced.length = species.length)
include h2 h

lemma constantPressureBody_plain : ∃ steps, constantPressureBody plainC species reactions produced = .ok steps ∧
    steps.filterMap callArity = [("eval_conc", 7), ("eval_rxn_rates", 5)] ++ modificationArity reactions ++
      [("eval_spec_rates", 5), ("eval_cp", 2), ("eval_h", 2)] ∧
    Assigns steps (.cell "cp_avg" none) (fun σ => some (meanCapacity "cp" species.length σ)) ∧
    Assigns steps (.cell "dy" (some 0)) (temperatureSlope "h" "cp_avg" species produced) := by
  obtain ⟨progress, hp, hpc, hpa⟩ := progressSteps_plain reactions
  obtain ⟨modification, hm, hmc, hma⟩ := modificationCall_plain reactions
  obtain ⟨ends, he, hec, hea, e, hee, hev⟩ := derivativeEnd_plain h "h" "cp_avg"
  have hp' : progressSteps plainC reactions (if passesPartialSums plainC reactions then [.var "dot_prod"] else []) =
      .ok progress := hp
  have hc := And.intro (hpa (.cell "cp_avg" none) (by decide)) (hma (.cell "cp_avg" none) (by decide))
  have hd := And.intro (hpa (.cell "dy" (some 0)) (by decide)) (hma (.cell "dy" (some 0)) (by decide))
  refine ⟨_, by rw [constantPressureBody]; dsimp only; rw [hp', hm, he]; rfl, ?_, ⟨_, by
    simp only [flatten_cons, flatten_nil, filterMap_append, hc, hea]
    rfl, fun σ => ?_⟩, e, ?_, hev⟩
  · simp only [flatten_cons, flatten_nil, filterMap_append, hpc, hmc, hec]
    rfl
  · obtain ⟨n, hn⟩ := Nat.exists_eq_add_of_le' h2
    rw [hn]
    split
    · next hl => simp [heatTerms] at hl
    · exact averageHeat_value _ "cp" n
  · simp only [flatten_cons, flatten_nil, filterMap_append, hd, hee]
    rfl

lemma constantVolumeBody_plain : ∃ steps, constantVolumeBody plainC species reactions produced = .ok steps ∧
    steps.filterMap callArity = [("eval_conc_rho", 6), ("eval_rxn_rates", 5)] ++ modificationArity reactions ++
      [("eval_spec_rates", 5), ("eval_cv", 2), ("eval_u", 2)] ∧
    Assigns steps (.cell "cv_avg" none) (fun _ => none) ∧
    Assigns steps (.cell "dy" (some 0)) (temperatureSlope "u" "cv_avg" species produced) := by
  obtain ⟨progress, hp, hpc, hpa⟩ := progressSteps_plain reactions
  obtain ⟨modification, hm, hmc, hma⟩ := modificationCall_plain reactions
  obtain ⟨ends, he, hec, hea, e, hee, hev⟩ := derivativeEnd_plain h "u" "cv_avg"
  have hc := And.intro (hpa (.cell "cv_avg" none) (by decide)) (hma (.cell "cv_avg" none) (by decide))
  have hd := And.intro (hpa (.cell "dy" (some 0)) (by decide)) (hma (.cell "dy" (some 0)) (by decide))
  refine ⟨_, by rw [constantVolumeBody, hp, hm, he]; rfl, ?_, ⟨_, by
    simp only [flatten_cons, flatten_nil, filterMap_append, hc, hea]
    rfl, fun σ => ?_⟩, e, ?_, hev⟩
  · simp only [flatten_cons, flatten_nil, filterMap_append, hpc, hmc, hec]
    rfl
  · exact value_beside_group (sumOf_value _ (heatTerms_terms "cv" _) (by simp [heatTerms]; omega))
  · simp only [flatten_cons, flatten_nil, filterMap_append, hd, hee]
    rfl

end Bodies

lemma ratesHeader_plain (reactions : List (Reaction ℕ Exact)) : ∃ file, ratesHeader plainC reactions = .ok file ∧
    announced file = [("eval_rxn_rates", 5), ("eval_spec_rates", 5)] ++ modificationArity reactions := by
  unfold modificationArity
  refine ⟨_, rfl, ?_⟩
  cases reactions.any (·.isModified) <;> rfl

/-- Both functions of the state derivative, with the functions that the headers announce. Each name is
announced once. At constant pressure, all calls pass as many arguments as announced, the heat capacity
is the average over all species, and the rate of change of temperature has the value that energy
conservation asks for as soon as a species is produced. At constant volume the first call passes six
arguments instead of seven, and the heat capacity has no value. -/
theorem energy_equations (species : List (Species Exact)) (reactions : List (Reaction ℕ Exact))
    (produced : List Bool) (h2 : 2 ≤ species.length) (h : produced.length = species.length) :
    ∃ utilities rates source pressure volume, thermodynamicsHeader (α := Exact) plainC = .ok utilities ∧
      ratesHeader plainC reactions = .ok rates ∧ derivativeSource plainC species reactions produced = .ok source ∧
      bodies source = [pressure.map .step, volume.map .step] ∧
      ((announced utilities ++ announced rates).map Prod.fst).Nodup ∧
      -- constant pressure
      pressure.filterMap callArity ⊆ announced utilities ++ announced rates ∧
      Assigns pressure (.cell "cp_avg" none) (fun σ => some (meanCapacity "cp" species.length σ)) ∧
      Assigns pressure (.cell "dy" (some 0)) (temperatureSlope "h" "cp_avg" species produced) ∧
      -- constant volume
      (∃ calls, volume.filterMap callArity = ("eval_conc_rho", 6) :: calls ∧
        calls ⊆ announced utilities ++ announced rates ∧ ("eval_conc_rho", 7) ∈ announced utilities) ∧
      Assigns volume (.cell "cv_avg" none) (fun _ => none) ∧
      Assigns volume (.cell "dy" (some 0)) (temperatureSlope "u" "cv_avg" species produced) := by
  obtain ⟨rates, hr, ha⟩ := ratesHeader_plain reactions
  obtain ⟨pressure, hp, hpc, hpa, hpd⟩ := constantPressureBody_plain reactions h2 h
  obtain ⟨volume, hv, hvc, hva, hvd⟩ := constantVolumeBody_plain reactions h2 h
  refine ⟨_, rates, _, pressure, volume, rfl, hr, by rw [derivativeSource, hp, hv]; rfl, rfl, ?_, ?_, hpa, hpd,
    ⟨_, hvc, ?_, by decide⟩, hva, hvd⟩
  · rw [ha, modificationArity]
    cases reactions.any (·.isModified) <;> decide
  · rw [hpc, ha, modificationArity]
    cases reactions.any (·.isModified) <;> decide
  · rw [ha, modificationArity]
    cases reactions.any (·.isModified) <;> decide

def hydrogens : List (Species Exact) := [.named "H", .named "H2"]

theorem hydrogens_energy : ∃ source, ∃ pressure volume : List (Step Exact),
    derivativeSource plainC hydrogens [] [true, false] = .ok source ∧
    bodies source = [pressure.map .step, volume.map .step] ∧ ("eval_conc_rho", 6) ∈ volume.filterMap callArity ∧
    Assigns pressure (.cell "cp_avg" none) fun σ => some (σ.row "cp" 0 * σ.row "y" 1 + σ.row "cp" 1 * σ.var "y_N") := by
  obtain ⟨_, _, source, pressure, volume, -, -, hs, hb, -, -, ⟨e, he, hv⟩, -, ⟨calls, hc, -⟩, -⟩ :=
    energy_equations hydrogens [] [true, false] (by decide) (by decide)
  refine ⟨source, pressure, volume, hs, hb, by simp [hc], e, he, fun σ => (hv σ).trans ?_⟩
  simp [hydrogens, meanCapacity, fractionAt, range_succ]

end

end Kinetics.Emit
