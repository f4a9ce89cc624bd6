import Kinetics.Jacobian.Loop
import Kinetics.Proofs.RateNames
/-!
# What the code of a derivative holds

The derivatives of a reaction are computed in work variables from rates and
concentrations. None of this code reads or writes the matrix.
-/

open List

namespace Kinetics.Jacobian

open Code Rate Std.Do

set_option mvcgen.warning false

variable {α : Type} {G : Grammar} [G.Stateful]

/-! ## Rates -/

@[simp] lemma forward_fits (k : Ranks) : (k.forward : Expr α).Fits G := state_read (by simp)

@[simp] lemma backward_fits (k : Ranks) : (k.backward : Expr α).Fits G := state_read (by simp)

@[simp] lemma modification_fits (k : Ranks) : (k.modification : Expr α).Fits G := state_read (by simp)

@[simp] lemma difference_fits (k : Ranks) (r : Reaction ℕ α) : (k.difference r).Fits G := by
  unfold Ranks.difference
  split <;> simp

@[simp] lemma net_fits (k : Ranks) (r : Reaction ℕ α) : (k.net r).Fits G := by
  unfold Ranks.net
  split <;> simp

variable [Arithmetic α]

/-! ## Specifications -/

@[spec] lemma overLogTen_any (d : Decimal) : ⦃⌜True⌝⦄ (overLogTen d : Except Fault α) ⦃⇓? _ => ⌜True⌝⦄ := any_result _

section Reaction
variable (r : Reaction ℕ α)

@[spec] lemma temperatureScale_any : ⦃⌜True⌝⦄ temperatureScale r ⦃⇓? _ => ⌜True⌝⦄ := any_result _

@[spec] lemma equilibriumItemsSorted_spec (sp : List (Species α)) :
    ⦃⌜True⌝⦄ equilibriumItemsSorted sp r ⦃⇓? items => ⌜∀ i ∈ items, i.Work⌝⦄ :=
  triple_iff_yields.2 (equilibriumItemsSorted_fits sp r)

/-! ## Falloff -/

@[spec] lemma limitRatio_spec : ⦃⌜True⌝⦄ limitRatio r ⦃⇓? x => ⌜x.2.2.Work⌝⦄ := by
  mvcgen [limitRatio, -Spec.throw_Except] with simp_all

lemma excessSum_fits {start : Option (Expr α)} (h : ∀ e ∈ start, e.Fits G) (excess : Excess α) :
    (excessSum start excess).Fits G := by
  have hf : ∀ (rest : Excess α) (sum : Expr α), sum.Fits G → (rest.foldl (fun sum t =>
      if Arithmetic.isNegative t.2 then sum - Expr.plain (Arithmetic.abs t.2) * Expr.cell "conc" t.1
      else sum + Expr.plain (Arithmetic.abs t.2) * Expr.cell "conc" t.1) sum).Fits G := by
    intro rest
    induction rest with
    | nil => exact fun _ hs => hs
    | cons e rest ih =>
      refine fun sum hs => ih _ ?_
      dsimp only
      split <;> simp [hs]
  cases excess with
  | nil => cases start <;> simp_all [excessSum]
  | cons e rest =>
    refine hf rest _ ?_
    cases start with
    | none => simp
    | some x => simp [h x rfl]

lemma updateCollider_fits (last new : Excess α) : ∀ s ∈ updateCollider last new, s.Fits G := by
  have hu : ∀ (used : Excess α) (isChange : Bool), ∀ s ∈ (if used.isEmpty then []
      else [Step.assign 2 (.var "conc_temp") (if isChange then .add else .set)
        (.group (excessSum (if isChange then none else some (.var "m")) used))]), s.Fits G := by
    intro used isChange
    split
    · exact forall_mem_nil _
    · refine forall_mem_singleton.2 ⟨(settable_var _).2 (by simp), excessSum_fits ?_ _⟩
      cases isChange <;> simp
  exact hu _ _

lemma colliderItems_fits (last : Option (Excess α)) : ∀ i ∈ (colliderItems last r).1, i.Fits G := by
  unfold colliderItems
  split
  · simp
  · split
    · simp
    · split
      · exact forall_mem_cons.2 ⟨trivial, forall_mem_map.2 (updateCollider_fits _ _)⟩
      · exact forall_mem_singleton.2 (by simp [thirdBodySum_fits])

@[spec] lemma reducedPressureItems_spec (last : Option (Excess α)) :
    ⦃⌜True⌝⦄ reducedPressureItems last r ⦃⇓? x => ⌜∀ i ∈ x.1, i.Work⌝⦄ := by
  have hi := colliderItems_fits (G := workGrammar) r last
  mvcgen [reducedPressureItems] with simp_all [or_imp]

omit [Arithmetic α] in
@[simp] lemma troeSquare_fits : (troeSquare : Expr α).Fits G := by
  simp [troeSquare, troeDenominator]

omit [Arithmetic α] in
@[simp] lemma Pr_fits : (Rate.Pr : Expr α).Fits G := (fits_var "Pr").2 (by simp)

omit [Arithmetic α] in
@[simp] lemma logPr_fits : (logPr : Expr α).Fits G := by
  simp [logPr]

omit [Arithmetic α] in
@[simp] lemma onePlusPr_fits : (onePlusPr : Expr α).Fits G := by
  simp [onePlusPr]

omit [Arithmetic α] in
@[simp] lemma pressureSlope_fits (places : ℕ) (beta E : α) : (pressureSlope places beta E).Fits G := by
  simp [pressureSlope]

@[spec] lemma troeItems_spec : ⦃⌜True⌝⦄ troeItems r ⦃⇓? steps => ⌜∀ s ∈ steps, s.Fits workGrammar⌝⦄ := by
  mvcgen [troeItems] with simp_all +zetaDelta [safeLog10]

variable {sum : Expr α}

@[spec] lemma addSriSlope_spec (hs : sum.Work) (beta E : α) :
    ⦃⌜True⌝⦄ addSriSlope sum r beta E ⦃⇓? e => ⌜e.Work⌝⦄ := by
  mvcgen [addSriSlope] with simp_all +zetaDelta

@[spec] lemma addTroeSlope_spec (hs : sum.Work) (beta E : α) :
    ⦃⌜True⌝⦄ addTroeSlope sum r beta E ⦃⇓? e => ⌜e.Work⌝⦄ := by
  mvcgen [addTroeSlope] with simp_all +zetaDelta

@[spec] lemma modificationSlope_spec : ⦃⌜True⌝⦄ modificationSlope r ⦃⇓? e => ⌜e.Work⌝⦄ := by
  mvcgen [modificationSlope] <;> simp_all +zetaDelta <;> split <;> simp

/-! ## Temperature derivatives -/

variable {lead : Lead α}

omit [Arithmetic α] in
lemma value_fits (hex : ∀ e ∈ lead.extra, e.Fits G) (hs : lead.scale.Fits G)
    {body : Expr α} (hb : body.Fits G) : (lead.value body).Fits G := by
  unfold Lead.value
  split
  · next e he => simp [hs, hb, hex e he]
  · simp [hs, hb]

@[spec] lemma falloffLead_spec (k : Ranks) :
    ⦃⌜True⌝⦄ falloffLead k r ⦃⇓? lead => ⌜∀ body : Expr α, body.Work → (lead.value body).Work⌝⦄ := by
  mvcgen [falloffLead] with simp_all [value_fits]

lemma rateSlope_fits (b E : α) : ∀ e ∈ rateSlope b E, e.Fits G := by
  unfold rateSlope
  split
  · split <;> simp
  · split <;> simp

omit [G.Stateful] in
lemma orderTerm_fits (nu : List α) : ∀ e ∈ orderTerm nu, e.Fits G := by
  unfold orderTerm
  dsimp only
  split <;> simp

lemma addEquilibriumSlope_fits (hs : sum.Fits G) (nu : α) (s : ℕ) : (addEquilibriumSlope sum nu s).Fits G := by
  unfold addEquilibriumSlope
  repeat' split
  all_goals simp [hs]

lemma firstEquilibriumSlope_fits (nu : α) (s : ℕ) : (firstEquilibriumSlope nu s).Fits G := by
  unfold firstEquilibriumSlope
  repeat' split
  all_goals simp

variable {a : Option (Expr α)}

omit [Arithmetic α] in
lemma getD_fits (ha : ∀ e ∈ a, e.Fits G) : (a.getD .hole).Fits G := by
  cases a with
  | none => simp
  | some x => exact ha x rfl

@[spec] lemma equilibriumSlope_spec : ⦃⌜True⌝⦄ equilibriumSlope r ⦃⇓? slope => ⌜∀ e ∈ slope, e.Work⌝⦄ := by
  have hp : ∀ (rest : List (ℕ × α)) (sum : Expr α), sum.Work →
      (rest.foldl (fun sum t => addEquilibriumSlope sum t.2 t.1) sum).Work := by
    intro rest
    induction rest with
    | nil => exact fun _ hs => hs
    | cons e rest ih => exact fun sum hs => ih _ (addEquilibriumSlope_fits hs e.2 e.1)
  have hr : ∀ (rest : List (ℕ × α)) (sum : Option (Expr α)), (∀ e ∈ sum, e.Work) →
      ∀ e ∈ rest.foldl (fun sum t => some (addEquilibriumSlope (sum.getD .hole) t.2 t.1)) sum, e.Work := by
    intro rest
    induction rest with
    | nil => exact fun _ hs => hs
    | cons e rest ih =>
      exact fun sum hs => ih _ (by simpa using addEquilibriumSlope_fits (getD_fits hs) e.2 e.1)
  refine triple_iff_yields.2 (yields_bind fun products => yields_bind fun reactants => yields_pure.2 (hr _ _ ?_))
  split
  · simp
  · next s nu rest => simpa using hp rest _ (firstEquilibriumSlope_fits nu s)

variable {b : Option (Expr α)}

omit [Arithmetic α] in
lemma joined_fits (ha : ∀ e ∈ a, e.Fits G) (hb : ∀ e ∈ b, e.Fits G) : ∀ e ∈ joined a b, e.Fits G := by
  cases a with
  | none => exact hb
  | some x =>
    cases b with
    | none => exact ha
    | some y => simp [joined, ha x rfl, hb y rfl]

omit [G.Stateful] [Arithmetic α] in
lemma map_fits (ha : ∀ e ∈ a, e.Fits G) {f : Expr α → Expr α}
    (hf : ∀ e, e.Fits G → (f e).Fits G) : ∀ e ∈ a.map f, e.Fits G := by
  cases a with
  | none => simp
  | some x => simp [hf x (ha x rfl)]

@[spec] lemma twoWayBody_spec (k : Ranks) : ⦃⌜True⌝⦄ twoWayBody k r ⦃⇓? body => ⌜∀ e ∈ body, e.Work⌝⦄ := by
  have hf := joined_fits (rateSlope_fits (G := workGrammar) r.b r.E) (orderTerm_fits r.reactantNu)
  mvcgen [twoWayBody, reverseSlope]
  next b E _ =>
  have hb := joined_fits (rateSlope_fits (G := workGrammar) b E) (orderTerm_fits r.productNu)
  simp +zetaDelta only
  cases hj : joined (rateSlope b E) (orderTerm r.productNu) <;>
    cases hi : joined (rateSlope r.b r.E) (orderTerm r.reactantNu) <;> simp_all

lemma elementaryBody_fits (k : Ranks) : Yields (fun body => ∀ e ∈ body, e.Work) (elementaryBody k r) := by
  have hs := rateSlope_fits (G := workGrammar) r.b r.E
  have hr := orderTerm_fits (G := workGrammar) r.reactantNu
  have hp := orderTerm_fits (G := workGrammar) r.productNu
  refine triple_iff_yields.1 ?_
  mvcgen [elementaryBody, equilibriumBody, forwardBody]
  all_goals
    try simp +zetaDelta only
    generalize rateSlope r.b r.E = slope, orderTerm r.reactantNu = order, orderTerm r.productNu = reverse at *
    cases slope <;> cases order <;> cases reverse <;> simp_all [joined, equilibriumFactor] <;> split <;> simp_all

lemma chebyshevBody_fits (k : Ranks) : Yields Expr.Work (chebyshevBody k r) := by
  have hr := orderTerm_fits (G := workGrammar) r.reactantNu
  have hp := orderTerm_fits (G := workGrammar) r.productNu
  refine triple_iff_yields.1 ?_
  mvcgen [chebyshevBody] <;> simp_all +zetaDelta <;> (repeat' split) <;> simp_all [getD_fits]

omit [Arithmetic α] [G.Stateful] in
lemma optional_fits {x : Expr α} (hx : x.Fits G) (c : Bool) : ∀ e ∈ if c then none else some x, e.Fits G := by
  cases c <;> simp [hx]

@[spec] lemma interpolatedSlope_spec (p q : Support α) : ⦃⌜True⌝⦄ interpolatedSlope p q ⦃⇓? e => ⌜e.Work⌝⦄ := by
  have hst := joined_fits (optional_fits (G := workGrammar) (x := .full p.b) fits_full (Arithmetic.isZero p.b))
    (optional_fits (x := .full p.E / .T) (by simp) (Arithmetic.isZero p.E))
  have hdb := optional_fits (G := workGrammar) (x := .full (q.b - p.b)) fits_full (Arithmetic.isZero (q.b - p.b))
  have hsl := getD_fits (joined_fits hdb (b := some (.full (q.E - p.E) / .T)) (by simp))
  mvcgen [interpolatedSlope, -Spec.throw_Except]
  · exact getD_fits hst
  · next h => exact fits_opened.2 ⟨Grammar.Stateful.flawed, getD_fits (joined_fits hst (by simp [hdb _ h]))⟩
  all_goals exact getD_fits (joined_fits hst (by simp +zetaDelta [hsl]))

lemma interpolatedBody_fits (k : Ranks) (p q : Support α) : Yields Expr.Work (interpolatedBody k r p q) := by
  have hr := orderTerm_fits (G := workGrammar) r.reactantNu
  have hp := orderTerm_fits (G := workGrammar) r.productNu
  refine triple_iff_yields.1 ?_
  mvcgen [interpolatedBody] <;> simp_all +zetaDelta <;> split <;> simp_all

section Close
variable {close : ℕ → Expr α → Step α} (hc : ∀ n e, e.Work → (close n e).Fits workGrammar)
include hc

lemma chebyshevTemperature_fits (k : Ranks) :
    Yields (fun steps => ∀ s ∈ steps, s.Fits workGrammar) (chebyshevTemperature close k r) := by
  refine yields_bind fun temperatures => yields_bind fun pressures => ?_
  refine (chebyshevSlope_fits (G := workGrammar) r).bind fun slope hs => ?_
  refine (chebyshevBody_fits r k).bind fun body hb => yields_pure.2 ?_
  rw [forall_mem_append, forall_mem_append]
  exact ⟨⟨reduced_fits 16 temperatures pressures, hs⟩, forall_mem_singleton.2 (hc 2 body hb)⟩

lemma interpolatedArms_fits (k : Ranks) (all : List (List α)) :
    Yields (fun arms => ∀ arm ∈ arms, arm.1.Fits workGrammar ∧ ∀ s ∈ arm.2, s.Fits workGrammar)
      (interpolatedArms close k r all) := by
  fun_induction interpolatedArms close k r all with
  | case1 first second rest ih =>
    refine yields_bind fun p => yields_bind fun q => (interpolatedBody_fits r k p q).bind fun body hb => ?_
    refine ih.bind fun arms ha => yields_pure.2 (forall_mem_cons.2 ⟨⟨state_read (by simp), ?_⟩, ha⟩)
    exact forall_mem_singleton.2 (hc 4 body hb)
  | case2 => exact yields_ok.2 fun _ h => absurd h not_mem_nil

lemma plogTemperature_fits (k : Ranks) : Yields (Item.Work) (plogTemperature close k r) := by
  have hbl : ∀ {condition : Condition α} {body : Option (Expr α)}, condition.Fits workGrammar → (∀ e ∈ body, e.Work) →
      ∀ arm ∈ (body.map fun e => (condition, [close 4 e])).toList,
        arm.1.Fits workGrammar ∧ ∀ s ∈ arm.2, s.Fits workGrammar := by
    intro condition body hcn hb
    cases body with
    | none => exact fun arm har => absurd har not_mem_nil
    | some e => exact forall_mem_singleton.2 ⟨hcn, forall_mem_singleton.2 (hc 4 e (hb e rfl))⟩
  refine yields_bind fun all => yields_bind fun first => yields_bind fun p => ?_
  refine (elementaryBody_fits _ k).bind fun low hlw => ?_
  refine (interpolatedArms_fits r hc k all).bind fun middle hm => yields_bind fun values => yields_bind fun q => ?_
  refine (elementaryBody_fits _ k).bind fun high hb => yields_pure.2 ?_
  exact ⟨.inr (.inr Grammar.Stateful.flawed), forall_mem_append.2 ⟨forall_mem_append.2
    ⟨hbl (state_read (by simp)) hlw, hm⟩, hbl (state_read (by simp)) hb⟩⟩

end Close

lemma leadingPart_fits (excess : Option (Excess α)) (k : Ranks) :
    Yields (fun x => (∀ i ∈ x.1, i.Work) ∧ ∀ body : Expr α, body.Work → (x.2.1.value body).Work)
      (leadingPart excess k r) := by
  refine triple_iff_yields.1 ?_
  mvcgen [leadingPart, broadeningSteps] with
    simp_all +zetaDelta [or_imp, value_fits, sriExponent, thirdBodyLead, plainLead]

lemma slopeAssignment_fits (hl : ∀ body : Expr α, body.Work → (lead.value body).Work)
    (k : Ranks) : Yields (fun assignment => ∀ i ∈ assignment.getD [], i.Work) (slopeAssignment lead k r) := by
  have hc : ∀ n (body : Expr α), body.Work →
      (Step.assign n (.var "j_temp") .set (lead.value body)).Fits workGrammar := fun n body hb => by simp [hl body hb]
  unfold slopeAssignment
  split
  · exact (plogTemperature_fits r hc k).bind fun item hi => yields_pure.2 (forall_mem_singleton.2 hi)
  · split
    · exact (chebyshevTemperature_fits r hc k).bind fun steps hst => yields_pure.2 (forall_mem_map.2 hst)
    · refine (elementaryBody_fits r k).bind fun body hb => yields_pure.2 ?_
      cases body with
      | none => exact fun _ h => absurd h not_mem_nil
      | some e => exact forall_mem_singleton.2 (hc 2 e (hb e rfl))

lemma temperatureItems_fits (excess : Option (Excess α)) (k : Ranks) :
    Yields (fun x => ∀ i ∈ x.1, i.Work) (temperatureItems excess k r) := by
  refine (leadingPart_fits r excess k).bind fun x hx => ?_
  refine (slopeAssignment_fits r hx.2 k).bind fun assignment ha => yields_pure.2 ?_
  exact forall_mem_append.2 ⟨forall_mem_cons.2 ⟨.inr Grammar.Stateful.flawed, hx.1⟩, forall_mem_cons.2 ⟨trivial, ha⟩⟩

/-! ## Derivatives by mass fractions -/

lemma limitShare_fits : (limitShare r).Fits G := by
  unfold limitShare
  repeat' split
  all_goals simp

@[spec] lemma takeTroeShare_spec (hs : sum.Work) : ⦃⌜True⌝⦄ takeTroeShare sum ⦃⇓? e => ⌜e.Work⌝⦄ := by
  mvcgen [takeTroeShare] with simp_all

@[spec] lemma takeSriShare_spec (hs : sum.Work) : ⦃⌜True⌝⦄ takeSriShare sum r ⦃⇓? e => ⌜e.Work⌝⦄ := by
  mvcgen [takeSriShare] with simp_all +zetaDelta

@[spec] lemma modificationStart_spec (k : Ranks) :
    ⦃⌜True⌝⦄ modificationStart k r ⦃⇓? s => ⌜s.Fits workGrammar⌝⦄ := by
  mvcgen [modificationStart] with simp_all +zetaDelta [limitShare_fits]

omit [G.Stateful] in
lemma orderedRate_fits (order : α) {rate : Expr α} (hr : rate.Fits G) : ∀ e ∈ orderedRate order rate, e.Fits G := by
  unfold orderedRate
  split
  · simp
  · split <;> simp [hr]

variable {term : Option (Expr α)}

omit [G.Stateful] [Arithmetic α] in
lemma plusTerm_fits (hs : sum.Fits G) (h : ∀ e ∈ term, e.Fits G) : (plusTerm sum term).Fits G := by
  cases term with
  | none => exact hs
  | some e => exact fits_add.2 ⟨.inl hs, h e rfl⟩

omit [G.Stateful] [Arithmetic α] in
lemma lessTerm_fits (hs : sum.Fits G) (h : ∀ e ∈ term, e.Fits G) : (lessTerm sum term).Fits G := by
  cases term with
  | none => exact hs
  | some e => exact fits_sub.2 ⟨.inl hs, h e rfl⟩

lemma orderedDifference_fits (k : Ranks) : (orderedDifference k r).Fits G := by
  have hf := getD_fits (orderedRate_fits (thirdBodyOrder r + Arithmetic.sum r.reactantNu) (forward_fits (G := G) k))
  unfold orderedDifference
  split
  · exact lessTerm_fits hf (orderedRate_fits _ (backward_fits k))
  · exact hf

lemma commonDerivative_fits (k : Ranks) : (commonDerivative k r).Fits G := by
  have hd := orderedDifference_fits (G := G) r k
  unfold commonDerivative
  split <;> split <;> simp [hd]

@[spec] lemma modificationEnd_spec : ⦃⌜True⌝⦄ modificationEnd r ⦃⇓? s => ⌜s.Fits workGrammar⌝⦄ := by
  mvcgen [modificationEnd, limitQuotient] with simp_all +zetaDelta [troeDenominator]

@[spec] lemma commonItems_spec (k : Ranks) :
    ⦃⌜True⌝⦄ commonItems k r ⦃⇓? steps => ⌜∀ s ∈ steps, s.Fits workGrammar⌝⦄ := by
  mvcgen [commonItems] with simp_all +zetaDelta [commonDerivative_fits]

lemma compositionStart_fits (sp : List (Species α)) (k : Ranks) :
    Yields (fun items => ∀ i ∈ items, i.Work) (compositionStart sp k r) := by
  refine triple_iff_yields.1 ?_
  mvcgen [compositionStart, rateConstants, forwardConstantItems, reverseConstantItems, arrheniusOf] with
    simp_all +zetaDelta [or_imp, forall_and]

lemma timesPower_fits {e : Expr α} (he : e.Fits G) (s : ℕ) (power : α) : (timesPower e s power).Fits G := by
  have hf : ∀ (n : ℕ) (e : Expr α), e.Fits G → ((List.replicate n (Expr.cell "conc" s)).foldl (· * ·) e).Fits G := by
    intro n
    induction n with
    | zero => exact fun _ he => he
    | succ n ih => exact fun e he => ih _ (by simp [he])
  unfold timesPower
  split
  · exact hf _ e he
  · simp [he]

variable {constant : String}

lemma powerSlope_fits (h : G.names constant) (s : ℕ) (order : α) : (powerSlope constant s order).Fits G := by
  have hs : (if Arithmetic.eq order Arithmetic.one then .var constant
      else .var constant * .plain (Arithmetic.pointed order) : Expr α).Fits G := by
    split <;> simp [h]
  unfold powerSlope
  dsimp only
  split
  · exact timesPower_fits hs s _
  · exact hs

@[spec] lemma directionSlope_spec (h : constant ∈ workNames) (sp : List ℕ) (nu : List α) (s : ℕ) :
    ⦃⌜True⌝⦄ directionSlope constant sp nu s ⦃⇓? slope => ⌜∀ e ∈ slope, e.Work⌝⦄ := by
  refine triple_iff_yields.2 ?_
  unfold directionSlope
  split
  · refine Yields.bind ?_ fun e he => yields_pure.2 (by simpa using he)
    have hp := powerSlope_fits (G := workGrammar) (α := α) h s
    refine yields_bind fun order => yields_foldlM (fun product hp other => ?_) (hp order) _
    dsimp only
    split
    · exact yields_ok.2 hp
    · exact yields_bind fun power => yields_pure.2 (timesPower_fits hp _ power)
  · exact yields_ok.2 (by simp)

@[spec] lemma rateSlopes_spec (s : ℕ) :
    ⦃⌜True⌝⦄ rateSlopes r s ⦃⇓? slopes => ⌜(∀ e ∈ slopes.1, e.Work) ∧ ∀ e ∈ slopes.2, e.Work⌝⦄ := by
  mvcgen [rateSlopes] with simp_all

omit [Arithmetic α] in
lemma differenceOf_fits (gap : Gap) {a b : Option (Expr α)} (ha : ∀ e ∈ a, e.Fits G) (hb : ∀ e ∈ b, e.Fits G) :
    ∀ e ∈ differenceOf gap a b, e.Fits G := by
  cases a <;> cases b <;> simp_all [differenceOf]

variable {own : Option (Expr α) × Option (Expr α)} {last : Option (Expr α)}

omit [G.Stateful] [Arithmetic α] in
lemma addSlopes_fits (hs : sum.Fits G) (fraction : α) (hf : ∀ e ∈ own.1, e.Fits G)
    (hb : ∀ e ∈ own.2, e.Fits G) (hl : ∀ e ∈ last, e.Fits G) :
    (addSlopes sum fraction own last).Fits G :=
  lessTerm_fits (lessTerm_fits (plusTerm_fits hs hf) hb) (map_fits hl fun e he => by simp [he])

omit [Arithmetic α] in
lemma modifiedSlopes_fits (fraction : α) (hf : ∀ e ∈ own.1, e.Fits G) (hb : ∀ e ∈ own.2, e.Fits G)
    (hl : ∀ e ∈ last, e.Fits G) : ∀ e ∈ modifiedSlopes fraction own last, e.Fits G :=
  differenceOf_fits _ (differenceOf_fits _ hf hb) (map_fits hl fun e he => by simp [he])

@[spec] lemma addColliderShare_spec (hs : sum.Work) (sp : List (Species α)) (j : ℕ) (weight fraction : α) :
    ⦃⌜True⌝⦄ addColliderShare sum sp r j weight fraction ⦃⇓? e => ⌜e.Work⌝⦄ := by
  mvcgen [addColliderShare] with simp_all +zetaDelta

lemma speciesDerivative_fits (sp : List (Species α)) (k : Ranks) (j : ℕ) (weight : α) :
    Yields Expr.Work (speciesDerivative sp k r j weight) := by
  refine triple_iff_yields.1 ?_
  mvcgen [speciesDerivative]
  · simp +zetaDelta
  · next hs _ ho _ _ _ e he hen =>
    simp [hs, modifiedSlopes_fits _ ho.1 ho.2 (differenceOf_fits _ hen.1 hen.2) e he]
  · next hs _ ho _ _ _ hen => exact addSlopes_fits hs _ ho.1 ho.2 (differenceOf_fits _ hen.1 hen.2)

end Reaction

lemma temperatureShare_fits (weight nu : α) : (temperatureShare weight nu).Fits G := by
  unfold temperatureShare
  split
  · simp
  · split <;> simp

lemma compositionShare_fits (factor : α) {derivative : Expr α} (h : derivative.Fits G) :
    (compositionShare factor derivative).Fits G := by
  unfold compositionShare
  split
  · simp [h]
  · split <;> simp [h]

end Kinetics.Jacobian
