import Kinetics.Proofs.Meaning
import Kinetics.Proofs.Stoichiometry
/-!
# Equilibrium constants

The emitted conditionals sum up, over the species that change, the net coefficient
times the exponent of one mole, whatever midpoint temperatures the species share.
The rate code and the Jacobian code go through the species in different orders and
compute the same constant.
-/

open List

namespace Kinetics.Rate

open Code

noncomputable section

variable {σ : Memory}

/-! ## Polynomials -/

def polynomialAt (c : Nasa Exact) (T logT : ℝ) : ℝ := c.a1.toReal + c.a2.toReal * logT
    + T * (c.a3.toReal + T * (c.a4.toReal + T * (c.a5.toReal + c.a6.toReal * T)))
    - c.a7.toReal / T

/-- Entropy minus enthalpy of one mole, less the power of the temperature. -/
def moleExponent (p : Nasa Exact) (T logT : ℝ) : ℝ := p.a7.toReal - p.a1.toReal + (p.a1.toReal - 1) * logT
    + T * (p.a2.toReal / 2 + T * (p.a3.toReal / 6 + T * (p.a4.toReal / 12 + p.a5.toReal / 20 * T)))
    - p.a6.toReal / T

open Classical in
/-- The exponent of one mole of a species, on the side of its midpoint where `T` is. -/
def speciesExponent (s : Species Exact) (T logT : ℝ) : ℝ :=
  moleExponent (if T ≤ s.midpoint.toReal then s.low else s.high) T logT

open Classical in
def shareAt (e : Exponents Exact) (T logT : ℝ) : ℝ :=
  polynomialAt (if T ≤ e.midpoint.toReal then e.low else e.high) T logT

def totalAt (shares : List (Exponents Exact)) (T logT : ℝ) : ℝ := (shares.map fun e => shareAt e T logT).sum

lemma exponentPolynomial_factor (c : Nasa Exact) :
    Factor σ (exponentPolynomial c) (polynomialAt c (σ.var "T") (σ.var "logT")) := by
  have hT := Factor.var (σ := σ) "T"
  have hlogT := Factor.var (σ := σ) "logT"
  have h₃ := Factor.group (value_add (Factor.full c.a5).value ((Factor.full c.a6).term.mul hT.term))
  have h₂ := Factor.group (value_add (Factor.full c.a4).value (hT.term.mul h₃.term))
  have h₁ := Factor.group (value_add (Factor.full c.a3).value (hT.term.mul h₂.term))
  have h₀ := value_add (Factor.full c.a1).value ((Factor.full c.a2).term.mul hlogT.term)
  exact Factor.group (value_sub (value_add h₀ (hT.term.mul h₁.term)) ((Factor.full c.a7).term.div hT))

lemma polynomialAt_add (p q : Nasa Exact) (T logT : ℝ) :
    polynomialAt (p.add q) T logT = polynomialAt p T logT + polynomialAt q T logT := by
  simp only [polynomialAt, Nasa.add, Exact.toReal_add]
  ring

lemma polynomialAt_gibbsShare (nu : Exact) (p : Nasa Exact) (T logT : ℝ) :
    polynomialAt (gibbsShare nu p) T logT = nu.toReal * moleExponent p T logT := by
  simp only [polynomialAt, gibbsShare, Nasa.map, moleExponent, Exact.toReal_mul, Exact.toReal_sub,
    Exact.toReal_part, Exact.toReal_unit]
  ring

/-! ## Sums by midpoint -/

def Distinct (shares : List (Exponents Exact)) : Prop := (shares.map (·.midpoint.toReal)).Nodup

variable {shares : List (Exponents Exact)}

lemma distinct_addShare (h : Distinct shares) (nu : Exact) (s : Species Exact) : Distinct (addShare shares nu s) := by
  unfold Distinct addShare
  split
  · rw [map_map]
    have : shares.map ((·.midpoint.toReal) ∘ fun e => if Arithmetic.eq e.midpoint s.midpoint then
        { e with low := (gibbsShare nu s.low).add e.low, high := (gibbsShare nu s.high).add e.high }
        else e) = shares.map (·.midpoint.toReal) :=
      map_congr_left fun e _ => by simp only [Function.comp]; split <;> rfl
    rw [this]
    exact h
  · next ha =>
    simp only [any_eq_true, Exact.eq_iff, not_exists, not_and] at ha
    rw [map_append, nodup_append]
    refine ⟨h, nodup_singleton _, ?_⟩
    simp only [mem_map, map_cons, map_nil, mem_singleton]
    rintro _ ⟨e, he, rfl⟩ _ rfl
    exact ha e he

lemma shareAt_gibbs (nu : Exact) (s : Species Exact) (T logT : ℝ) :
    shareAt ⟨s.midpoint, gibbsShare nu s.low, gibbsShare nu s.high⟩ T logT = nu.toReal * speciesExponent s T logT := by
  unfold shareAt speciesExponent
  split <;> exact polynomialAt_gibbsShare nu _ T logT

open Classical in
lemma shareAt_add (e : Exponents Exact) (nu : Exact) (s : Species Exact) (T logT : ℝ) :
    shareAt (if Arithmetic.eq e.midpoint s.midpoint then
        { e with low := (gibbsShare nu s.low).add e.low, high := (gibbsShare nu s.high).add e.high }
        else e) T logT =
      shareAt e T logT + if e.midpoint.toReal = s.midpoint.toReal then nu.toReal * speciesExponent s T logT else 0 := by
  by_cases h : e.midpoint.toReal = s.midpoint.toReal
  · rw [if_pos ((Exact.eq_iff _ _).2 h), if_pos h, ← shareAt_gibbs]
    unfold shareAt
    rw [h, add_comm]
    split <;> exact polynomialAt_add _ _ T logT
  · rw [if_neg (by simpa using h), if_neg h, add_zero]

lemma totalAt_addShare (h : Distinct shares) (nu : Exact)
    (s : Species Exact) (T logT : ℝ) : totalAt (addShare shares nu s) T logT =
      totalAt shares T logT + nu.toReal * speciesExponent s T logT := by
  unfold totalAt addShare
  split
  · next ha =>
    simp only [any_eq_true, Exact.eq_iff] at ha
    obtain ⟨e, he, hm⟩ := ha
    rw [map_map]
    simp only [Function.comp_def, shareAt_add, sum_map_add]
    rw [sum_map_of_mem _ h (hm ▸ mem_map_of_mem he)]
  · rw [map_append, sum_append, map_singleton, sum_singleton, shareAt_gibbs]

/-- The sums by midpoint for species with net coefficients. -/
def sharesOf (net : List (Species Exact × Exact)) : List (Exponents Exact) :=
  net.foldl (fun shares t => addShare shares t.2 t.1) []

def exponentOf (net : List (Species Exact × Exact)) (T logT : ℝ) : ℝ :=
  (net.map fun t => t.2.toReal * speciesExponent t.1 T logT).sum

lemma totalAt_foldl (net : List (Species Exact × Exact))
    (h : Distinct shares) (T logT : ℝ) : totalAt (net.foldl (fun shares t => addShare shares t.2 t.1) shares) T logT =
      totalAt shares T logT + exponentOf net T logT := by
  induction net generalizing shares with
  | nil => simp [exponentOf]
  | cons t net ih =>
    rw [foldl_cons, ih (distinct_addShare h t.2 t.1), totalAt_addShare h, exponentOf, exponentOf,
      map_cons, sum_cons, add_assoc]

lemma totalAt_sharesOf (net : List (Species Exact × Exact)) (T logT : ℝ) :
    totalAt (sharesOf net) T logT = exponentOf net T logT := by
  have h : Distinct [] := nodup_nil
  rw [sharesOf, totalAt_foldl net h]
  simp [totalAt]

lemma sharesOf_eq_nil {net : List (Species Exact × Exact)} : sharesOf net = [] ↔ net = [] := by
  have ha : ∀ (shares : List (Exponents Exact)) nu s, addShare shares nu s ≠ [] := by
    intro shares nu s
    unfold addShare
    split
    · next h =>
      rintro he
      rw [map_eq_nil_iff] at he
      simp [he] at h
    · simp
  rcases eq_nil_or_concat net with rfl | ⟨front, t, rfl⟩
  · simp [sharesOf]
  · simp [sharesOf, ha]

/-! ## Conditionals -/

lemma run_split (e : Exponents Exact) (form : Form) : Item.run σ (.split 2 (.atMost "T" .shortest e.midpoint)
        [.assign 4 (.var "Kc") form (exponentPolynomial e.low)]
        [.assign 4 (.var "Kc") form (exponentPolynomial e.high)]) =
      some (σ.setVar "Kc" (form.update (σ.var "Kc") (shareAt e (σ.var "T") (σ.var "logT")))) := by
  simp only [Item.run, Condition.holds, shareAt, decide_eq_true_eq]
  split <;> simp only [runSteps, run_assign 4 form (rfl : (Expr.var "Kc").location = _)
    (exponentPolynomial_factor _).value, Option.bind_some]

lemma exponentItems_false_run (shares : List (Exponents Exact)) (σ : Memory) :
    runItems σ (exponentItems false shares) = some (σ.setVar "Kc"
      (σ.var "Kc" + totalAt shares (σ.var "T") (σ.var "logT"))) := by
  induction shares generalizing σ with
  | nil => simp [exponentItems, runItems, totalAt]
  | cons e es ih =>
    rw [exponentItems, runItems]
    simp only [Bool.false_eq_true, if_false, run_split, Option.bind_some, ih]
    simp [totalAt, Form.update, add_assoc]

/-- The conditionals leave the exponent in `Kc`; without any of them it is left alone. -/
lemma exponentItems_true_run (net : List (Species Exact × Exact)) (σ : Memory) :
    runItems σ (exponentItems true (sharesOf net)) = some (σ.setVar "Kc"
      (if net = [] then σ.var "Kc" else exponentOf net (σ.var "T") (σ.var "logT"))) := by
  rw [← totalAt_sharesOf]
  by_cases hn : net = []
  · rw [if_pos hn, sharesOf_eq_nil.2 hn]
    simp [exponentItems, runItems]
  · rw [if_neg hn]
    have hs := mt sharesOf_eq_nil.1 hn
    obtain ⟨e, es, hes⟩ := exists_cons_of_ne_nil hs
    rw [hes, exponentItems, runItems]
    simp only [if_true, run_split, Option.bind_some, exponentItems_false_run]
    simp [totalAt, Form.update]

/-! ## The two writers -/

section Writers
variable {species : List (Species Exact)} {r : Reaction ℕ Exact} {sp : ℕ → Species Exact}

variable {s i : ℕ}

lemma changes_products (hr : Side r.reactants r.reactantNu)
    (hp : Side r.products r.productNu) (hs : r.products[i]? = some s) : (do
      let made ← entryAt r.productNu i
      let nu ← match r.reactants.idxOf? s with
        | some j => do pure (made - (← entryAt r.reactantNu j))
        | none => pure made
      return if Arithmetic.isZero nu then none else some (s, nu)) = Except.ok (changing r s) := by
  obtain ⟨x, hx, hc⟩ := hp.coefficient_of_getElem? hs
  have hm : s ∈ r.products := mem_of_getElem? hs
  rw [entryAt_eq_ok.2 hx, ok_bind, changing]
  by_cases hrc : s ∈ r.reactants
  · obtain ⟨y, hy⟩ := coefficient_ok hr.length_eq.ge hrc
    rw [Reaction.change_of_both hm hrc hc hy]
    unfold Reaction.coefficient at hy
    split at hy
    · next j hj =>
      simp only [hj, hy, ok_bind, pure_ok]
      by_cases hz : (x - y).toReal = 0
      · simp only [(Exact.isZero_iff _).2 hz, if_true, (Exact.isZero_iff _).2 Exact.toReal_zero]
      · simp only [(Exact.isZero_false_iff _).2 hz, Bool.false_eq_true, if_false]
    · cases hy
  · have hn : r.reactants.idxOf? s = none := by simpa using hrc
    rw [Reaction.change_of_product hm hrc hc, hn]
    rfl

lemma changes_reactants (hr : Side r.reactants r.reactantNu) (hs : r.reactants[i]? = some s) :
    (if r.products.contains s then Except.ok none
      else do return some (s, -(← entryAt r.reactantNu i))) =
      Except.ok (if r.products.contains s then none else some (s, r.change s)) := by
  obtain ⟨x, hx, hc⟩ := hr.coefficient_of_getElem? hs
  have hm : s ∈ r.reactants := mem_of_getElem? hs
  by_cases hp : s ∈ r.products
  · rw [if_pos (by simpa using hp), if_pos (by simpa using hp)]
  · rw [if_neg (by simpa using hp), if_neg (by simpa using hp), entryAt_eq_ok.2 hx,
      Reaction.change_of_reactant hp hm hc]
    rfl

lemma changes_eq (hr : Side r.reactants r.reactantNu) (hp : Side r.products r.productNu) :
    changes r = .ok (r.products.filterMap (changing r) ++
      (r.reactants.filter fun s => !r.products.contains s).map fun s => (s, r.change s)) := by
  have fst : ∀ (f : ℕ → Option (ℕ × Exact)) (xs : List ℕ),
      xs.zipIdx.filterMap (fun p => f p.1) = xs.filterMap f := fun f xs => by
    conv_rhs => rw [← zipIdx_map_fst 0 xs, filterMap_map]
    rfl
  rw [changes, filterMapM_eq_ok_filterMap, ok_bind, filterMapM_eq_ok_filterMap, ok_bind,
    fst, fst fun s => if r.products.contains s then none else some (s, r.change s)]
  · rw [← filterMap_eq_map, filterMap_filter]
    congr 3
    funext s
    cases r.products.contains s <;> rfl
  · rintro ⟨s, i⟩ h
    exact changes_reactants hr (mem_zipIdx_iff_getElem?.1 h)
  · rintro ⟨s, i⟩ h
    exact changes_products hr hp (mem_zipIdx_iff_getElem?.1 h)

def moleChange (r : Reaction ℕ Exact) : ℝ := ((participants r).map fun s => (r.change s).toReal).sum

def reactionExponent (sp : ℕ → Species Exact) (r : Reaction ℕ Exact) (T logT : ℝ) : ℝ :=
  ((participants r).map fun s => (r.change s).toReal * speciesExponent (sp s) T logT).sum

def Balanced (r : Reaction ℕ Exact) : Prop := ∀ s ∈ participants r, (r.change s).toReal = 0

open Classical in
/-- The equilibrium constant that the emitted code leaves in `Kc`. If no species
changes, the exponent is what `Kc` held before. -/
def equilibriumConstant (sp : ℕ → Species Exact) (r : Reaction ℕ Exact) (T logT before : ℝ) : ℝ :=
  ((atmosphere : Exact).toReal / (gasConstant : Exact).toReal) ^ moleChange r *
    Real.exp (if Balanced r then before else reactionExponent sp r T logT)

lemma molePower_ok (x : Exact) : ∃ c, molePower x = .ok c ∧
    c.toReal = ((atmosphere : Exact).toReal / (gasConstant : Exact).toReal) ^ x.toReal := by
  obtain ⟨c, hc, hv⟩ := Exact.pow_ok (a := .measure ((atmosphere : Exact).toReal / (gasConstant : Exact).toReal))
    (div_pos Exact.atmosphere_pos Exact.gasConstant_pos)
  exact ⟨c, by rw [molePower, Exact.div_ok Exact.gasConstant_pos.ne', ok_bind, hc], hv⟩

/-- Conditionals and a last statement that scales the exponential. -/
lemma equilibrium_run (net : List (ℕ × Exact)) (last : Expr Exact)
    (hs : ∀ g : ℕ → ℝ, (net.map fun t => t.2.toReal * g t.1).sum =
      ((participants r).map fun s => (r.change s).toReal * g s).sum)
    (hn : net = [] ↔ Balanced r)
    (hl : ∀ σ, Term σ last (((atmosphere : Exact).toReal / (gasConstant : Exact).toReal) ^
      (net.map fun t => t.2.toReal).sum * Real.exp (σ.var "Kc"))) (σ : Memory) :
    runItems σ (exponentItems true (sharesOf (net.map fun t => (sp t.1, t.2))) ++ [.step (.setVar "Kc" last)]) =
      some (σ.setVar "Kc" (equilibriumConstant sp r (σ.var "T") (σ.var "logT") (σ.var "Kc"))) := by
  have hm : (net.map fun t => t.2.toReal).sum = moleChange r := by
    simpa [moleChange] using hs fun _ => 1
  have he : exponentOf (net.map fun t => (sp t.1, t.2)) (σ.var "T") (σ.var "logT") =
      reactionExponent sp r (σ.var "T") (σ.var "logT") := by
    rw [exponentOf, map_map]
    exact hs fun s => speciesExponent (sp s) (σ.var "T") (σ.var "logT")
  rw [runItems_append, exponentItems_true_run, Option.bind_some, he,
    runItems, Item.run, run_setVar "Kc" (hl _).value, Option.bind_some, runItems, Memory.setVar,
    Memory.setVar, Function.update_idem, hm]
  classical
  simp [equilibriumConstant, hn]

lemma sum_toReal_eq (net : List (ℕ × Exact)) :
    (Arithmetic.sum (net.map Prod.snd)).toReal = (net.map fun t => t.2.toReal).sum := by
  rw [Exact.toReal_sum, map_map]
  rfl

lemma filterMap_changing_eq_nil {xs : List ℕ} :
    xs.filterMap (changing r) = [] ↔ ∀ s ∈ xs, (r.change s).toReal = 0 := by
  simp [filterMap_eq_nil_iff, changing]

lemma equilibriumItems_run (hr : Side r.reactants r.reactantNu) (hp : Side r.products r.productNu)
    (hsp : ∀ s ∈ participants r, species[s]? = some (sp s))
    (hz : Balanced r → ∀ s ∈ r.reactants, s ∈ r.products) :
    ∃ items, equilibriumItems species r = .ok items ∧ ∀ σ, runItems σ items = some (σ.setVar "Kc"
        (equilibriumConstant sp r (σ.var "T") (σ.var "logT") (σ.var "Kc"))) := by
  set net := r.products.filterMap (changing r) ++
    (r.reactants.filter fun s => !r.products.contains s).map fun s => (s, r.change s) with hn
  have hm : ∀ t ∈ net, t.1 ∈ participants r := by
    intro t ht
    rw [mem_participants]
    rcases mem_append.1 ht with ht | ht
    · obtain ⟨s, hs, h⟩ := mem_filterMap.1 ht
      unfold changing at h
      split at h
      · cases h
      · cases h
        exact .inr hs
    · obtain ⟨s, hs, rfl⟩ := mem_map.1 ht
      exact .inl (mem_of_mem_filter hs)
  have hf : net.foldlM (fun shares t => do return addShare shares t.2 (← entryAt species t.1)) [] =
      Except.ok (sharesOf (net.map fun t => (sp t.1, t.2))) := by
    rw [sharesOf, foldl_map]
    refine foldlM_eq_ok (R := fun x y => x = y ∧ y ∈ net) ?_ ?_ []
    · exact forall₂_same.2 fun t ht => ⟨rfl, ht⟩
    · rintro shares _ t ⟨rfl, ht⟩
      rw [entryAt_eq_ok.2 (hsp _ (hm _ ht))]
      rfl
  obtain ⟨c, hc, hv⟩ := molePower_ok (Arithmetic.sum (net.map (·.2)))
  refine ⟨_, ?_, equilibrium_run net (.full c * .exp (.var "Kc")) ?_ ?_ ?_⟩
  · simp only [equilibriumItems, changes_eq hr hp, ok_bind, ← hn, hf, hc]
    rfl
  · intro g
    rw [hn, map_append, sum_append, sum_changing, map_map,
      ((participants_perm r hr.nodup hp.nodup).map _).sum_eq, map_append, sum_append]
    rfl
  · rw [hn, append_eq_nil_iff, filterMap_changing_eq_nil, map_eq_nil_iff, filter_eq_nil_iff]
    constructor
    · rintro ⟨h₁, h₂⟩ s hs
      rcases (mem_participants r).1 hs with hs | hs
      · exact h₁ s (by simpa using h₂ s hs)
      · exact h₁ s hs
    · intro h
      exact ⟨fun s hs => h s ((mem_participants r).2 (.inr hs)), fun s hs => by simpa using hz h s hs⟩
  · intro σ
    rw [← sum_toReal_eq, ← hv]
    exact (Factor.full c).term.mul (Factor.exp (Factor.var "Kc").value).term

lemma equilibriumItemsSorted_run (h : r.Aligned) (hsp : ∀ s ∈ participants r, species[s]? = some (sp s)) :
    ∃ items, equilibriumItemsSorted species r = .ok items ∧ ∀ σ, runItems σ items =
      some (σ.setVar "Kc" (equilibriumConstant sp r (σ.var "T") (σ.var "logT") (σ.var "Kc"))) := by
  set net := (participants r).filterMap (changing r) with hnt
  have hf : (participants r).filterMapM (fun s => do
      let sp ← entryAt species s
      let nu ← r.net s
      return if Arithmetic.isZero nu then none else some (sp, nu)) =
      Except.ok (net.map fun t => (sp t.1, t.2)) := by
    rw [hnt, map_filterMap]
    refine filterMapM_eq_ok_filterMap fun s hs => ?_
    rw [entryAt_eq_ok.2 (hsp s hs), ok_bind, Reaction.net_eq h, ok_bind, pure_ok, changing]
    cases Arithmetic.isZero (r.change s) <;> rfl
  obtain ⟨c, hc, hv⟩ := molePower_ok (Arithmetic.sum (net.map Prod.snd))
  have hsm := fun g => sum_changing r g (participants r)
  have hn : net = [] ↔ Balanced r := filterMap_changing_eq_nil
  have hsn : (net.map fun t => (sp t.1, t.2)).map Prod.snd = net.map Prod.snd := by
    rw [map_map]
    rfl
  simp only [equilibriumItemsSorted, hf, ok_bind, hsn]
  by_cases hz : (Arithmetic.sum (net.map Prod.snd)).toReal = 0
  · refine ⟨_, ?_, equilibrium_run net (.exp (.var "Kc")) hsm hn fun σ => ?_⟩
    · rw [if_pos ((Exact.isZero_iff _).2 hz)]
      rfl
    · rw [← sum_toReal_eq, hz, Real.rpow_zero, one_mul]
      exact (Factor.exp (Factor.var "Kc").value).term
  · refine ⟨_, ?_, equilibrium_run net (.full c * .exp (.var "Kc")) hsm hn fun σ => ?_⟩
    · rw [if_neg (by simpa using hz), hc]
      rfl
    · rw [← sum_toReal_eq, ← hv]
      exact (Factor.full c).term.mul (Factor.exp (Factor.var "Kc").value).term

end Writers

end

end Kinetics.Rate
