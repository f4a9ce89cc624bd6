import Kinetics.Emit.Thermodynamics
import Kinetics.Jacobian.Energy
import Kinetics.Proofs.EquilibriumSlopes
/-!
# Thermodynamic consistency

Six pieces of code come from the fourteen coefficients of a species: enthalpy, internal
energy, both specific heats, the temperature derivative of the heat capacity of a mixture
and the derivative of a share in equilibrium exponents. Each has divisors, nestings and
groupings by midpoint of its own. `thermodynamic_consistency` says that they belong to one
enthalpy: it is the integral of the specific heat, and it is the derivative of entropy
minus enthalpy.
-/

open List

namespace Kinetics.Emit

open Code Rate Jacobian

noncomputable section

/-! ## Polynomials in nested form -/

def horner : List ℝ → ℝ → ℝ
  | [], _ => 0
  | c :: cs, T => c + T * horner cs T

/-- The derivative of a polynomial, along its nesting. -/
def hornerSlope : List ℝ → ℝ → ℝ
  | [], _ => 0
  | _ :: cs, T => horner cs T + T * hornerSlope cs T

lemma hasDerivAt_horner (cs : List ℝ) (T : ℝ) : HasDerivAt (horner cs) (hornerSlope cs T) T := by
  induction cs with
  | nil => exact hasDerivAt_const T 0
  | cons c cs ih =>
    refine (((hasDerivAt_id' T).mul ih).const_add c).congr_deriv ?_
    rw [hornerSlope, one_mul]

/-- The coefficients of the enthalpy over gas constant. -/
def enthalpyCoefficients (p : Nasa Exact) : List ℝ :=
  [p.a6.toReal, p.a1.toReal, p.a2.toReal / (2 : ℕ), p.a3.toReal / (3 : ℕ), p.a4.toReal / (4 : ℕ), p.a5.toReal / (5 : ℕ)]

/-- The coefficients of the specific heat at constant pressure over gas constant. -/
def capacityCoefficients (p : Nasa Exact) : List ℝ := [p.a1.toReal, p.a2.toReal, p.a3.toReal, p.a4.toReal, p.a5.toReal]

lemma hornerSlope_enthalpyCoefficients (p : Nasa Exact) (T : ℝ) :
    hornerSlope (enthalpyCoefficients p) T = horner (capacityCoefficients p) T := by
  simp only [enthalpyCoefficients, capacityCoefficients, hornerSlope, horner]
  ring

section Expressions
variable {σ : Memory}

variable {es : List (Expr Exact)} {vs : List ℝ}

lemma sumOf_value (gap : Gap) (h : List.Forall₂ (Term σ) es vs)
    (hne : es ≠ []) : (sumOf gap es).value σ = some vs.sum := by
  have hf : ∀ {es : List (Expr Exact)} {vs : List ℝ}, List.Forall₂ (Term σ) es vs →
      ∀ {e : Expr Exact} {x : ℝ}, e.value σ = some x →
        (es.foldl (.binary .plus gap) e).value σ = some (x + vs.sum) := by
    intro es vs h
    induction h with
    | nil =>
      intro e x he
      simpa using he
    | cons hb _ ih =>
      intro e x he
      rw [foldl_cons, ih (value_plus he hb), sum_cons, add_assoc]
  cases h with
  | nil => exact absurd rfl hne
  | cons he hes => rw [sumOf, hf hes he.value, sum_cons]

/-- Leading coefficients may be sums, the last one is multiplied without parentheses. -/
lemma nested_value
    (h : List.Forall₂ (fun e v => e.value σ = some v) es vs) (hne : es ≠ []) {last : Expr Exact} {w : ℝ}
    (hl : Term σ last w) : (nested (es ++ [last])).value σ = some (horner (vs ++ [w]) (σ.var "T")) := by
  have hT := (Factor.var (σ := σ) "T").term
  induction h with
  | nil => exact absurd rfl hne
  | @cons a v es vs ha hes ih =>
    cases hes with
    | nil =>
      refine (value_add ha (hl.mul hT)).trans ?_
      simp only [cons_append, nil_append, horner, mul_zero, add_zero, mul_comm w]
    | @cons b x es vs hb hes =>
      have hr := (Factor.group (ih (cons_ne_nil b es))).term
      have hn : nested (a :: b :: (es ++ [last])) = a + .T * .group (nested (b :: (es ++ [last]))) := by
        cases es <;> rfl
      rw [cons_append, cons_append, hn]
      exact value_add ha (hT.mul hr)

lemma full_value (x : Exact) : (Expr.full x).value σ = some x.toReal := (Factor.full x).value

lemma less_one_value (x : Exact) : (Expr.full x - 1.0).value σ = some (x.toReal - 1) :=
  value_sub (full_value x) Factor.one.term

end Expressions

/-! ## Properties of all species -/

open Classical in
/-- A polynomial of a species, on the side of its midpoint where `T` is. -/
def onRange (f : Nasa Exact → ℝ → ℝ) (s : Species Exact) (T : ℝ) : ℝ :=
  f (if T ≤ s.midpoint.toReal then s.low else s.high) T

variable {s : Species Exact} {T : ℝ}

lemma hasDerivAt_onRange {f g : Nasa Exact → ℝ → ℝ}
    (hf : ∀ p, HasDerivAt (f p) (g p T) T) (hm : T ≠ s.midpoint.toReal) :
    HasDerivAt (onRange f s) (onRange g s T) T := by
  rcases lt_or_gt_of_ne hm with h | h
  · rw [onRange, if_pos h.le]
    refine (hf s.low).congr_of_eventuallyEq ?_
    filter_upwards [eventually_lt_nhds h] with x hx
    rw [onRange, if_pos hx.le]
  · rw [onRange, if_neg h.not_ge]
    refine (hf s.high).congr_of_eventuallyEq ?_
    filter_upwards [eventually_gt_nhds h] with x hx
    rw [onRange, if_neg hx.not_ge]

def specificConstant (s : Species Exact) : ℝ := (gasConstant : Exact).toReal / s.weight.toReal

def enthalpyAt (s : Species Exact) (T : ℝ) : ℝ :=
  specificConstant s * onRange (fun p => horner (enthalpyCoefficients p)) s T

/-- The specific heat of a species at constant pressure. -/
def capacityAt (s : Species Exact) (T : ℝ) : ℝ :=
  specificConstant s * onRange (fun p => horner (capacityCoefficients p)) s T

/-- The code fills the first `n` entries of an array with functions of the temperature, and
changes nothing else. -/
def Tabulates (code : Except Fault (List (Item Exact))) (array : String) (n : ℕ) (f : ℕ → ℝ → ℝ) : Prop :=
  ∃ items, code = .ok items ∧ ∀ σ : Memory, ∃ τ, runItems σ items = some τ ∧
    (∀ k < n, τ.row array k = f k (σ.var "T")) ∧ ∀ p, (∀ k < n, p ≠ .cell array (some (k : ℤ))) → τ p = σ p

lemma Tabulates.congr {code : Except Fault (List (Item Exact))} {array : String} {n : ℕ} {f g : ℕ → ℝ → ℝ}
    (h : Tabulates code array n f) (hfg : ∀ k < n, ∀ T, f k T = g k T) : Tabulates code array n g := by
  obtain ⟨items, hi, hr⟩ := h
  refine ⟨items, hi, fun σ => ?_⟩
  obtain ⟨τ, hτ, he, ho⟩ := hr σ
  exact ⟨τ, hτ, fun k hk => (he k hk).trans (hfg k hk _), ho⟩

section Properties
variable {sp : List (Species Exact)} {array : String} {polynomial : Nasa Exact → Expr Exact} {f : Nasa Exact → ℝ → ℝ}

def propertyItem (array : String) (polynomial : Nasa Exact → Expr Exact) (s : Species Exact) (i : ℕ) : Item Exact :=
  let value := fun p => Step.assign 4 (.cell array i) .set
    (.full (.measure (specificConstant s)) * .group (polynomial p))
  .split 2 (.atMost "T" .shortest s.midpoint) [value s.low] [value s.high]

lemma propertyItem_run (hv : ∀ p σ, (polynomial p).value σ = some (f p (σ.var "T"))) (s : Species Exact)
    (i : ℕ) (σ : Memory) : (propertyItem array polynomial s i).run σ =
      some (σ.setRow array i (specificConstant s * onRange f s (σ.var "T"))) := by
  have hs : ∀ p, runSteps σ [Step.assign 4 (.cell array i) .set
      (.full (.measure (specificConstant s)) * .group (polynomial p))] =
      some (σ.setRow array i (specificConstant s * f p (σ.var "T"))) := by
    intro p
    have ht := (Factor.full (.measure (specificConstant s))).term.mul (Factor.group (hv p σ)).term
    rw [runSteps, run_assign 4 .set rfl ht.value]
    rfl
  simp only [propertyItem, Item.run, Condition.holds, decide_eq_true_eq, onRange]
  split <;> exact hs _

/-- The code of a property tabulates it, for weights other than zero. -/
lemma propertyItems_tabulates (hv : ∀ p σ, (polynomial p).value σ = some (f p (σ.var "T")))
    (hw : ∀ s ∈ sp, 0 < s.weight.toReal) :
    Tabulates (propertyItems array polynomial sp) array sp.length
      fun k T => specificConstant (memberAt sp k) * onRange f (memberAt sp k) T := by
  have hi : propertyItems array polynomial sp =
      .ok (.step .blank :: sp.zipIdx.map fun t => propertyItem array polynomial t.1 t.2) := by
    rw [propertyItems, mapM_eq_ok_map]
    · rfl
    · rintro ⟨s, i⟩ ht
      have hs := hw s (fst_mem_of_mem_zipIdx ht)
      dsimp only
      rw [Exact.div_ok hs.ne']
      rfl
  refine ⟨_, hi, fun σ => ?_⟩
  have hst : ∀ t ∈ sp.zipIdx, ∀ τ, OnlyIn array σ τ → ∃ ρ, (propertyItem array polynomial t.1 t.2).run τ = some ρ ∧
      Stored array [t.2] (fun k => specificConstant (memberAt sp k) * onRange f (memberAt sp k) (σ.var "T")) τ ρ := by
    intro t ht τ ho
    refine ⟨_, ?_, stored_update array τ t.2 _⟩
    rw [propertyItem_run hv, ho.var, memberAt, mem_zipIdx_iff_getElem?.1 ht]
    rfl
  obtain ⟨τ, hτ, hs⟩ := stored_items array _ (fun t : Species Exact × ℕ => [t.2]) hst
  have hx : sp.zipIdx.flatMap (fun t => [t.2]) = List.range sp.length := by
    rw [← map_eq_flatMap, zipIdx_map_snd, range_eq_range']
  rw [hx] at hs
  exact ⟨τ, hτ, fun k hk => hs.entry k (mem_range.2 hk), fun p hp => hs.other p fun k hk => hp k (mem_range.1 hk)⟩

end Properties

/-! ## Enthalpy and specific heat -/

section Enthalpy
variable {σ : Memory}

lemma integrated_values (p : Nasa Exact) (σ : Memory) : List.Forall₂ (fun e v => e.value σ = some v)
      [Expr.full (Arithmetic.part p.a2 2), .full (Arithmetic.part p.a3 3), .full (Arithmetic.part p.a4 4)]
      [p.a2.toReal / (2 : ℕ), p.a3.toReal / (3 : ℕ), p.a4.toReal / (4 : ℕ)] :=
  .cons (full_value _) (.cons (full_value _) (.cons (full_value _) .nil))

lemma enthalpyPolynomial_value (p : Nasa Exact) (σ : Memory) :
    (enthalpyPolynomial p).value σ = some (horner (enthalpyCoefficients p) (σ.var "T")) :=
  nested_value (.cons (full_value _) (.cons (full_value _) (integrated_values p σ))) (cons_ne_nil _ _)
    (Factor.full (Arithmetic.part p.a5 5)).term

lemma energyPolynomial_value (p : Nasa Exact) (σ : Memory) :
    (energyPolynomial p).value σ = some (horner (enthalpyCoefficients p) (σ.var "T") + -σ.var "T") := by
  refine (nested_value (.cons (full_value _) (.cons (less_one_value _) (integrated_values p σ)))
    (cons_ne_nil _ _) (Factor.full (Arithmetic.part p.a5 5)).term).trans ?_
  simp only [cons_append, nil_append, horner, enthalpyCoefficients, Exact.toReal_part]
  congr 1
  ring

lemma middle_values (p : Nasa Exact) (σ : Memory) :
    List.Forall₂ (fun e v => e.value σ = some v) [Expr.full p.a2, .full p.a3, .full p.a4]
      [p.a2.toReal, p.a3.toReal, p.a4.toReal] :=
  .cons (full_value _) (.cons (full_value _) (.cons (full_value _) .nil))

lemma cpPolynomial_value (p : Nasa Exact) (σ : Memory) :
    (cpPolynomial p).value σ = some (horner (capacityCoefficients p) (σ.var "T")) :=
  nested_value (.cons (full_value _) (middle_values p σ)) (cons_ne_nil _ _) (Factor.full p.a5).term

lemma cvPolynomial_value (p : Nasa Exact) (σ : Memory) :
    (cvPolynomial p).value σ = some (horner (capacityCoefficients p) (σ.var "T") + -1) := by
  refine (nested_value (.cons (less_one_value _) (middle_values p σ)) (cons_ne_nil _ _)
    (Factor.full p.a5).term).trans ?_
  simp only [cons_append, nil_append, horner, capacityCoefficients]
  congr 1
  ring

lemma hasDerivAt_enthalpyAt (hm : T ≠ s.midpoint.toReal) : HasDerivAt (enthalpyAt s) (capacityAt s T) T := by
  refine (hasDerivAt_onRange (fun p => ?_) hm).const_mul _
  rw [← hornerSlope_enthalpyCoefficients]
  exact hasDerivAt_horner _ T

end Enthalpy

/-! ## The heat capacity of a mixture -/

section Mixture
variable {species : List (Species Exact)}

/-- The mass fraction of a species; that of the last one is kept apart. -/
def fractionAt (σ : Memory) (n k : ℕ) : ℝ := if k + 1 = n then σ.var "y_N" else σ.row "y" (k + 1)

lemma massFraction_factor (n k : ℕ) (σ : Memory) : Factor σ (massFraction n k) (fractionAt σ n k) := by
  unfold massFraction fractionAt
  split
  · exact Factor.var "y_N"
  · exact Factor.cell "y" (k + 1)

/-- The share of a species in the derivative of the heat capacity, from the coefficients `p`. -/
def slopeShare (σ : Memory) (species : List (Species Exact)) (k : ℕ) (p : Nasa Exact) : ℝ :=
  fractionAt σ species.length k *
    (specificConstant (memberAt species k) * hornerSlope (capacityCoefficients p) (σ.var "T"))

def slopeTerm (species : List (Species Exact)) (k : ℕ) (p : Nasa Exact) : Expr Exact :=
  .group (massFraction species.length k * .full (.measure (specificConstant (memberAt species k)))
    * .group (.full p.a2 + .T * .group (.full (Arithmetic.tenths 20 * p.a3)
      + .T * .group (.full (Arithmetic.tenths 30 * p.a4) + .full (Arithmetic.tenths 40 * p.a5) * .T))))

lemma heatCapacitySlope_eq (hw : ∀ s ∈ species, 0 < s.weight.toReal) {k : ℕ} (hk : k < species.length)
    (p : Nasa Exact) :
    heatCapacitySlope species.length k (memberAt species k).weight p = .ok (slopeTerm species k p) := by
  have hs := hw _ (mem_of_getElem? (getElem?_memberAt hk))
  rw [heatCapacitySlope, Exact.div_ok hs.ne']
  rfl

lemma slopeTerm_term (sp : List (Species Exact)) (k : ℕ) (p : Nasa Exact) (σ : Memory) :
    Term σ (slopeTerm sp k p) (slopeShare σ sp k p) := by
  have hT := Factor.var (σ := σ) "T"
  have hi := Factor.group (value_add (Factor.full (Arithmetic.tenths 30 * p.a4)).value
    ((Factor.full (Arithmetic.tenths 40 * p.a5)).term.mul hT.term))
  have ho := Factor.group (value_add (Factor.full (Arithmetic.tenths 20 * p.a3)).value (hT.term.mul hi.term))
  have hsm := Factor.group (value_add (Factor.full p.a2).value (hT.term.mul ho.term))
  have hf := ((massFraction_factor sp.length k σ).term.mul
    (Factor.full (.measure (specificConstant (memberAt sp k)))).term).mul hsm.term
  have hs : hornerSlope (capacityCoefficients p) (σ.var "T") =
      p.a2.toReal + σ.var "T" * ((Arithmetic.tenths 20 * p.a3).toReal + σ.var "T" *
        ((Arithmetic.tenths 30 * p.a4).toReal + (Arithmetic.tenths 40 * p.a5).toReal * σ.var "T")) := by
    simp only [capacityCoefficients, hornerSlope, horner, Exact.toReal_mul, Exact.toReal_tenths]
    ring
  rw [slopeShare, hs, ← mul_assoc]
  exact (Factor.group hf.value).term

lemma midpointGroups_ne_nil {α : Type} [Arithmetic α] (sp : List (Species α)) :
    ∀ g ∈ midpointGroups sp, g.members ≠ [] := by
  refine List.foldlRecOn (motive := fun groups : List (MidpointGroup α) => ∀ g ∈ groups, g.members ≠ []) _ _
    (forall_mem_nil _) ?_
  rintro groups hg ⟨s, i⟩ -
  dsimp only
  fun_induction insertByMidpoint s.midpoint i groups <;> simp_all

/-- Groups of positions that share a midpoint with all their members. -/
structure Sorted (species : List (Species Exact)) (groups : List (MidpointGroup Exact)) (xs : List ℕ) : Prop where
  members : (groups.flatMap (·.members)).Perm xs
  midpoint : ∀ g ∈ groups, ∀ s ∈ g.members, (memberAt species s).midpoint.toReal = g.midpoint.toReal

lemma Sorted.insert {groups : List (MidpointGroup Exact)} {xs : List ℕ} (h : Sorted species groups xs) (s : ℕ) :
    Sorted species (insertByMidpoint (memberAt species s).midpoint s groups) (xs ++ [s]) := by
  obtain ⟨hm, hmd⟩ := h
  induction groups generalizing xs with
  | nil =>
    obtain rfl : xs = [] := by simpa using hm.symm
    exact ⟨.refl _, by simp [insertByMidpoint]⟩
  | cons g gs ih =>
    rw [forall_mem_cons] at hmd
    rw [insertByMidpoint]
    split
    · next heq =>
      rw [Exact.eq_iff] at heq
      refine ⟨?_, forall_mem_cons.2 ⟨fun t ht => ?_, hmd.2⟩⟩
      · rw [flatMap_cons, append_assoc]
        refine (perm_append_comm.append_left _).trans ?_
        rw [← append_assoc]
        exact hm.append_right _
      · rcases mem_append.1 ht with ht | ht
        · exact hmd.1 t ht
        · rw [mem_singleton.1 ht, heq]
    · split
      · exact ⟨perm_append_comm.trans (hm.append_right _), forall_mem_cons.2 ⟨by simp, forall_mem_cons.2 hmd⟩⟩
      · obtain ⟨hp, hm'⟩ := ih (.refl _) hmd.2
        refine ⟨(hp.append_left _).trans ?_, forall_mem_cons.2 ⟨hmd.1, hm'⟩⟩
        rw [← append_assoc]
        exact hm.append_right _

lemma midpointGroups_sorted (sp : List (Species Exact)) : Sorted sp (midpointGroups sp) (List.range sp.length) := by
  have hf : ∀ (rest : List (Species Exact × ℕ)) groups xs, Sorted sp groups xs → (∀ t ∈ rest, t.1 = memberAt sp t.2) →
      Sorted sp (rest.foldl (fun groups t => insertByMidpoint t.1.midpoint t.2 groups) groups)
        (xs ++ rest.map Prod.snd) := by
    intro rest
    induction rest with
    | nil =>
      intro groups xs h _
      simpa using h
    | cons t rest ih =>
      intro groups xs h hr
      rw [forall_mem_cons] at hr
      have := ih _ _ (h.insert t.2) hr.2
      rwa [append_assoc, ← hr.1] at this
  have hs : Sorted sp [] [] := ⟨.nil, forall_mem_nil _⟩
  have h := hf sp.zipIdx [] [] hs fun t ht => by
    rw [mem_zipIdx_iff_getElem?] at ht
    simp [memberAt, ht]
  rwa [zipIdx_map_snd, ← range_eq_range'] at h

/-- The shares of some species, each on its side of its midpoint. -/
def sharesAt (σ : Memory) (species : List (Species Exact)) (members : List ℕ) : ℝ :=
  (members.map fun k => fractionAt σ species.length k * (specificConstant (memberAt species k) *
    onRange (fun p => hornerSlope (capacityCoefficients p)) (memberAt species k) (σ.var "T"))).sum

lemma sharesAt_update (σ : Memory) (sp : List (Species Exact)) (members : List ℕ) (v : ℝ) :
    sharesAt (σ.setVar "working_temp" v) sp members = sharesAt σ sp members := by
  have hf : ∀ n k, fractionAt (σ.setVar "working_temp" v) n k = fractionAt σ n k := by
    intro n k
    rw [fractionAt, fractionAt, var_update_var, if_neg (show ¬"y_N" = "working_temp" by decide), row_update_var]
  have hT : Memory.var (σ.setVar "working_temp" v) "T" = σ.var "T" := by
    rw [var_update_var, if_neg (by decide)]
  simp only [sharesAt, hf, hT]

/-- The conditional of one group, which sets the sum or adds to it. -/
def groupSlopeItem (species : List (Species Exact)) (form : Form) (g : MidpointGroup Exact) : Item Exact :=
  let steps := fun (range : Species Exact → Nasa Exact) => [Step.assign 4 (.var "working_temp") form
    (sumOf { breakBefore := .always 4 false, before := 0 }
      (g.members.map fun k => slopeTerm species k (range (memberAt species k))))]
  .split 2 (.atMost "T" .shortest g.midpoint) (steps (·.low)) (steps (·.high))

lemma groupSlopeItem_run {g : MidpointGroup Exact} (hne : g.members ≠ [])
    (hm : ∀ k ∈ g.members, (memberAt species k).midpoint.toReal = g.midpoint.toReal) (form : Form)
    (σ : Memory) : (groupSlopeItem species form g).run σ = some (σ.setVar "working_temp"
      (form.update (σ.var "working_temp") (sharesAt σ species g.members))) := by
  have hs : ∀ range : Species Exact → Nasa Exact, runSteps σ [Step.assign 4 (.var "working_temp") form
        (sumOf { breakBefore := .always 4 false, before := 0 }
          (g.members.map fun k => slopeTerm species k (range (memberAt species k))))] =
      some (σ.setVar "working_temp" (form.update (σ.var "working_temp")
        (g.members.map fun k => slopeShare σ species k (range (memberAt species k))).sum)) := by
    intro range
    have ht : List.Forall₂ (Term σ) (g.members.map fun k => slopeTerm species k (range (memberAt species k)))
        (g.members.map fun k => slopeShare σ species k (range (memberAt species k))) := by
      rw [forall₂_map_left_iff, forall₂_map_right_iff, forall₂_same]
      exact fun k _ => slopeTerm_term species k _ σ
    rw [runSteps, run_assign 4 form rfl (sumOf_value _ ht (by simpa using hne))]
    rfl
  simp only [groupSlopeItem, Item.run, Condition.holds, decide_eq_true_eq]
  split
  · next hT =>
    rw [hs]
    congr 4
    refine map_congr_left fun k hk => ?_
    rw [slopeShare, onRange, hm k hk, if_pos hT]
  · next hT =>
    rw [hs]
    congr 4
    refine map_congr_left fun k hk => ?_
    rw [slopeShare, onRange, hm k hk, if_neg hT]

lemma groupSlopeItems_run (groups : List (MidpointGroup Exact)) (hne : ∀ g ∈ groups, g.members ≠ [])
    (hm : ∀ g ∈ groups, ∀ k ∈ g.members, (memberAt species k).midpoint.toReal = g.midpoint.toReal)
    (σ : Memory) : runItems σ (groups.map (groupSlopeItem species .accumulate)) =
      some (σ.setVar "working_temp" (σ.var "working_temp" + sharesAt σ species (groups.flatMap (·.members)))) := by
  induction groups generalizing σ with
  | nil => simp [runItems, sharesAt]
  | cons g groups ih =>
    rw [forall_mem_cons] at hne hm
    rw [map_cons, runItems, groupSlopeItem_run hne.1 hm.1, Option.bind_some, ih hne.2 hm.2, sharesAt_update]
    simp [sharesAt, Form.update, add_assoc]

lemma heatCapacityItems_run (hw : ∀ s ∈ species, 0 < s.weight.toReal) (hne : species ≠ []) :
    ∃ items, heatCapacityItems species = .ok items ∧ ∀ σ, runItems σ items =
      some (σ.setVar "working_temp" (sharesAt σ species (List.range species.length))) := by
  obtain ⟨hp, hm⟩ := midpointGroups_sorted species
  have hi := midpointGroups_ne_nil species
  have hmm : ∀ g ∈ midpointGroups species, ∀ k ∈ g.members, k < species.length := fun g hg k hk =>
    mem_range.1 (hp.subset (mem_flatMap.2 ⟨g, hg, hk⟩))
  have hit : heatCapacityItems species = .ok ((midpointGroups species).zipIdx.map fun t =>
      groupSlopeItem species (if t.2 = 0 then .set else .accumulate) t.1) := by
    refine mapM_eq_ok_map ?_
    rintro ⟨g, i⟩ ht
    have hg := fst_mem_of_mem_zipIdx ht
    have htr : ∀ range : Species Exact → Nasa Exact, (g.members.mapM fun s => do
        let sp ← entryAt species s
        heatCapacitySlope species.length s sp.weight (range sp)) = Except.ok
          (g.members.map fun k => slopeTerm species k (range (memberAt species k))) := by
      intro range
      refine mapM_eq_ok_map fun k hk => ?_
      have hk := hmm g hg k hk
      rw [entryAt_eq_ok.2 (getElem?_memberAt hk)]
      exact heatCapacitySlope_eq hw hk _
    dsimp only
    rw [htr, htr]
    rfl
  refine ⟨_, hit, fun σ => ?_⟩
  -- some group is first, since there is a species
  cases hgr : midpointGroups species with
  | nil =>
    rw [hgr] at hp
    exact absurd (length_eq_zero_iff.1 (by simpa using hp.length_eq.symm)) hne
  | cons g groups =>
    rw [hgr, forall_mem_cons] at hm hi
    have hr : (groups.zipIdx 1).map (fun t =>
        groupSlopeItem species (if t.2 = 0 then .set else .accumulate) t.1) =
        groups.map (groupSlopeItem species .accumulate) := by
      conv_rhs => rw [← zipIdx_map_fst 1 groups, map_map]
      refine map_congr_left fun t ht => ?_
      have := le_snd_of_mem_zipIdx ht
      rw [if_neg (by omega)]
      rfl
    rw [zipIdx_cons, map_cons, hr, runItems, groupSlopeItem_run hi.1 hm.1,
      Option.bind_some, groupSlopeItems_run groups hi.2 hm.2, sharesAt_update]
    rw [hgr, flatMap_cons] at hp
    have hsm : sharesAt σ species (List.range species.length) =
        sharesAt σ species g.members + sharesAt σ species (groups.flatMap (·.members)) := by
      rw [sharesAt, ← (hp.map _).sum_eq, map_append, sum_append]
      rfl
    rw [hsm]
    simp [Form.update]

/-- The sum of the shares is the derivative of the heat capacity. -/
lemma hasDerivAt_mixtureCapacity (σ : Memory)
    (hm : ∀ k < species.length, σ.var "T" ≠ (memberAt species k).midpoint.toReal) :
    HasDerivAt (fun T => ∑ k ∈ Finset.range species.length,
        fractionAt σ species.length k * capacityAt (memberAt species k) T)
      (sharesAt σ species (List.range species.length)) (σ.var "T") := by
  refine (HasDerivAt.fun_sum fun k hk => ?_).congr_deriv rfl
  have hs := hasDerivAt_onRange
    (fun p => hasDerivAt_horner (capacityCoefficients p) (σ.var "T")) (hm k (Finset.mem_range.1 hk))
  exact (hs.const_mul (specificConstant (memberAt species k))).const_mul _

end Mixture

/-! ## Entropy minus enthalpy -/

lemma speciesSlope_eq (hs : 0 < s.weight.toReal) (hT : T ≠ 0) :
    speciesSlope s T = enthalpyAt s T * s.weight.toReal / ((gasConstant : Exact).toReal * T ^ 2) - 1 / T := by
  have ho : ∀ p : Nasa Exact, moleSlope p T = horner (enthalpyCoefficients p) T / T ^ 2 - 1 / T := by
    intro p
    simp only [moleSlope, enthalpyCoefficients, horner]
    field_simp
    ring
  have hR := Exact.gasConstant_pos.ne'
  rw [speciesSlope, ho, enthalpyAt, specificConstant, onRange]
  field_simp

lemma hasDerivAt_gibbsAt (hs : 0 < s.weight.toReal) (hT : 0 < T) (hm : T ≠ s.midpoint.toReal) :
    HasDerivAt (gibbsAt s) (enthalpyAt s T * s.weight.toReal / ((gasConstant : Exact).toReal * T ^ 2)) T := by
  refine ((hasDerivAt_speciesExponent s hT.ne' hm).add (Real.hasDerivAt_log hT.ne')).congr_deriv ?_
  rw [speciesSlope_eq hs hT.ne']
  ring

/-! ## All code of a species list -/

/-- For species with positive weights, whatever their coefficients and midpoints: the code of
enthalpies, internal energies and specific heats tabulates `h`, `h - R T / W`, `cp` and
`cp - R / W`, where `cp` is the derivative of `h`. The code of the heat capacity leaves the
derivative of the sum of `Y cp`. Entropy minus enthalpy has the derivative `h W / (R T²)`. Less
`1 / T` this is what is stored in `dBdT`, and it is the derivative of the share of the species in
the exponents of equilibrium constants. -/
theorem thermodynamic_consistency {l : Language} (hl : l = .c ∨ l = .cuda) {species : List (Species Exact)}
    (hweight : ∀ s ∈ species, 0 < s.weight.toReal) :
    let n := species.length
    let R := (gasConstant : Exact).toReal
    let W := fun k => (memberAt species k).weight.toReal
    let midpoint := fun k => (memberAt species k).midpoint.toReal
    let h := fun k => enthalpyAt (memberAt species k)
    let cp := fun k => capacityAt (memberAt species k)
    let smh := fun k => gibbsAt (memberAt species k)
    let share := fun k T => speciesExponent (memberAt species k) T (Real.log T)
    (Tabulates (propertyItems "h" enthalpyPolynomial species) "h" n h ∧
      Tabulates (propertyItems "u" energyPolynomial species) "u" n (fun k T => h k T - R * T / W k) ∧
      Tabulates (propertyItems "cv" cvPolynomial species) "cv" n (fun k T => cp k T - R / W k) ∧
      Tabulates (propertyItems "cp" cpPolynomial species) "cp" n cp) ∧
    (∀ k < n, ∀ T, T ≠ midpoint k → HasDerivAt (h k) (cp k T) T) ∧
    (species ≠ [] → ∃ items, heatCapacityItems species = .ok items ∧ ∀ σ : Memory, ∃ τ,
      runItems σ items = some τ ∧ ((∀ k < n, σ.var "T" ≠ midpoint k) →
        HasDerivAt (fun T => ∑ k ∈ Finset.range n, fractionAt σ n k * cp k T) (τ.var "working_temp") (σ.var "T"))) ∧
    (∀ T : Exact, 0 < T.toReal → ∃ table, Species.entropyMinusEnthalpy T species = .ok table ∧
      table.length = n ∧ ∀ k < n, tableAt table k = smh k T.toReal) ∧
    (∀ k < n, ∀ T > 0, T ≠ midpoint k → HasDerivAt (smh k) (h k T * W k / (R * T ^ 2)) T ∧
      HasDerivAt (share k) (h k T * W k / (R * T ^ 2) - 1 / T) T) ∧
    (∀ reactions, (∀ k ∈ equilibriumSpecies reactions, k < n) →
      ∃ items, equilibriumSlopeItems l species reactions = .ok items ∧ ∀ σ : Memory, 0 < σ.var "T" →
        ∃ τ, runItems σ items = some τ ∧ ∀ k ∈ equilibriumSpecies reactions,
          τ.row "dBdT" k = h k (σ.var "T") * W k / (R * σ.var "T" ^ 2) - 1 / σ.var "T") ∧
    (∀ r : Reaction ℕ Exact, r.Aligned → (∀ k ∈ participants r, k < n) → ¬Balanced r →
      ∃ items, equilibriumItemsSorted species r = .ok items ∧ ∀ σ : Memory,
        σ.var "logT" = Real.log (σ.var "T") → ∃ τ, runItems σ items = some τ ∧
          τ.var "Kc" = ((atmosphere : Exact).toReal / R) ^ moleChange r *
            Real.exp ((participants r).map fun k => (r.change k).toReal * share k (σ.var "T")).sum) := by
  intro n R W midpoint h cp smh share
  have hW : ∀ k < n, 0 < W k := fun k hk => hweight _ (mem_of_getElem? (getElem?_memberAt hk))
  refine ⟨⟨propertyItems_tabulates enthalpyPolynomial_value hweight, ?_, ?_,
    propertyItems_tabulates cpPolynomial_value hweight⟩, fun k _ T => hasDerivAt_enthalpyAt, ?_, ?_, ?_, ?_, ?_⟩
  · refine (propertyItems_tabulates (f := fun p T => horner (enthalpyCoefficients p) T + -T)
      energyPolynomial_value hweight).congr fun k _ T => ?_
    change _ * (onRange (fun p => horner (enthalpyCoefficients p)) (memberAt species k) T + -T) =
      enthalpyAt (memberAt species k) T - R * T / W k
    rw [enthalpyAt, specificConstant]
    ring
  · refine (propertyItems_tabulates (f := fun p T => horner (capacityCoefficients p) T + -1)
      cvPolynomial_value hweight).congr fun k _ T => ?_
    change _ * (onRange (fun p => horner (capacityCoefficients p)) (memberAt species k) T + -1) =
      capacityAt (memberAt species k) T - R / W k
    rw [capacityAt, specificConstant]
    ring
  · intro hne
    obtain ⟨items, hitems, hrun⟩ := heatCapacityItems_run hweight hne
    refine ⟨items, hitems, fun σ => ⟨_, hrun σ, fun hmid => ?_⟩⟩
    rw [var_update_var, if_pos rfl]
    exact hasDerivAt_mixtureCapacity σ hmid
  · intro T hT
    obtain ⟨table, htable, hentries⟩ := entropyMinusEnthalpy_ok hT species
    exact ⟨table, htable, hentries.length_eq.symm, fun k hk => tableAt_eq hentries hk⟩
  · intro k hk T hT hmid
    refine ⟨hasDerivAt_gibbsAt (hW k hk) hT hmid, ?_⟩
    exact (hasDerivAt_speciesExponent _ hT.ne' hmid).congr_deriv (speciesSlope_eq (hW k hk) hT.ne')
  · intro reactions hmem
    obtain ⟨items, hitems, hrun⟩ := equilibriumSlopeItems_run hl hmem
    refine ⟨items, hitems, fun σ hT => ?_⟩
    obtain ⟨τ, hτ, -, hentry⟩ := hrun σ
    refine ⟨τ, hτ, fun k hk => ?_⟩
    rw [hentry k hk, speciesSlope_eq (hW k (hmem k hk)) hT.ne']
  · intro r hr hmem hnet
    have hsp : ∀ k ∈ participants r, species[k]? = some (memberAt species k) :=
      fun k hk => getElem?_memberAt (hmem k hk)
    obtain ⟨items, hitems, hrun⟩ := equilibriumItemsSorted_run hr hsp
    refine ⟨items, hitems, fun σ hlog => ⟨_, hrun σ, ?_⟩⟩
    rw [var_update_var, if_pos rfl, equilibriumConstant, if_neg hnet, hlog]
    rfl

def weighedFluorine : List (Species Exact) :=
  [{ memberAt fluorine 0 with weight := .count 38 }, { memberAt fluorine 1 with weight := .count 19 }]

/-- At 900 K the molecule is below its midpoint and the atom above. -/
theorem fluorine_consistency : (∀ s ∈ weighedFluorine, 0 < s.weight.toReal) ∧
    (∃ items τ, heatCapacityItems weighedFluorine = .ok items ∧ runItems (fun _ => 900) items = some τ ∧
      HasDerivAt (fun T => ∑ k ∈ Finset.range 2, 900 * capacityAt (memberAt weighedFluorine k) T)
        (τ.var "working_temp") 900) ∧
    ∃ items τ, equilibriumSlopeItems .c weighedFluorine [fluorineDissociation] = .ok items ∧
      runItems (fun _ => 900) items = some τ ∧ τ.row "dBdT" 1 =
        enthalpyAt (memberAt weighedFluorine 1) 900 * 19 / ((gasConstant : Exact).toReal * 900 ^ 2) - 1 / 900 := by
  have hweight : ∀ s ∈ weighedFluorine, 0 < s.weight.toReal := by
    simp [weighedFluorine]
  obtain ⟨-, -, hcapacity, -, -, hslopes, -⟩ := thermodynamic_consistency (.inl rfl) hweight
  obtain ⟨items, hitems, hrun⟩ := hcapacity (cons_ne_nil _ _)
  obtain ⟨τ, hτ, hderiv⟩ := hrun fun _ => 900
  have hmem : ∀ k ∈ equilibriumSpecies [fluorineDissociation], k < weighedFluorine.length := by
    intro k hk
    simp [equilibriumSpecies, fluorineDissociation, Reaction.elementary] at hk
    simp only [weighedFluorine, length_cons, length_nil]
    omega
  obtain ⟨items', hitems', hrun'⟩ := hslopes [fluorineDissociation] hmem
  obtain ⟨τ', hτ', hentry⟩ := hrun' (fun _ => 900) (by norm_num)
  refine ⟨hweight, ⟨items, τ, hitems, hτ, ?_⟩, items', τ', hitems', hτ', ?_⟩
  · have hmid : ∀ k < 2, (900 : ℝ) ≠ (memberAt weighedFluorine k).midpoint.toReal := by
      intro k hk
      interval_cases k <;> norm_num [memberAt, weighedFluorine, fluorine]
    have hfraction : ∀ k, fractionAt (fun _ => 900) weighedFluorine.length k = 900 := fun k => ite_self _
    have h := hderiv hmid
    simp only [hfraction] at h
    exact h
  · have hatom : 1 ∈ participants fluorineDissociation := (mem_participants _).2 (.inr (mem_singleton_self 1))
    refine (hentry 1 (mem_equilibriumSpecies (mem_singleton_self _) rfl rfl hatom)).trans ?_
    simp [memberAt, weighedFluorine]

end

end Kinetics.Emit
