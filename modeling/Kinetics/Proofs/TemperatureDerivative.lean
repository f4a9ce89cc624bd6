import Kinetics.Proofs.EquilibriumSlopes
/-!
# Derivatives of rates of progress by the temperature

The emitted derivative is a product of a factor that depends on the pressure modification
and a body that depends on the rate law. The body is put together from optional parts: the
share of the rate constant, one minus the order of a direction, and the derivative of the
equilibrium constant. A part that vanishes is left out, and a body without any part is not
written at all. For elementary reactions nothing is lost (`temperature_derivative`). For
reactions with a pressure modification the factor is left out with the body
(`unwritten_derivative`).
-/

open List

namespace Kinetics.Jacobian

open Code Rate

noncomputable section

/-! ## Optional parts -/

section Parts
variable {σ : Memory} {a b : Option (Expr Exact)} {e : Expr Exact} {x y : ℝ}

/-- An optional term; a missing one counts as zero. It may start with a sign. -/
def Addend (σ : Memory) : Option (Expr Exact) → ℝ → Prop
  | some e, v => Term σ e v
  | none, v => v = 0

lemma Addend.sum (h : Addend σ a x) : SumOr σ a x := by
  cases a with
  | none => exact h
  | some e => exact Term.value h

lemma joined_sum (ha : SumOr σ a x) (hb : Addend σ b y) : SumOr σ (joined a b) (x + y) := by
  cases a with
  | none =>
    rw [show x = 0 from ha, zero_add]
    exact hb.sum
  | some e =>
    cases b with
    | none =>
      rw [show y = 0 from hb, add_zero]
      exact ha
    | some f => exact value_add ha hb

lemma joined_eq_none {a b : Option (Expr Exact)} : joined a b = none ↔ a = none ∧ b = none := by
  cases a <;> cases b <;> simp [joined]

lemma Addend.group (he : Term σ e x) (ha : SumOr σ a y) : Addend σ (a.map fun f => e * .group f) (x * y) := by
  cases a with
  | none =>
    rw [show y = 0 from ha, mul_zero]
    rfl
  | some f => exact he.mul (Factor.group ha).term

lemma Addend.times (he : Term σ e x) (ha : Addend σ a y) : Addend σ (a.map fun f => e * f) (x * y) := by
  cases a with
  | none =>
    rw [show y = 0 from ha, mul_zero]
    rfl
  | some f => exact he.mul ha

/-! ## Shares of rate constants and orders -/

def threshold : ℝ := 1e-90

lemma matters_iff (x : Exact) : matters x = true ↔ threshold < |x.toReal| := by
  have hd : (Arithmetic.ofDecimal ⟨10, 1, -90⟩ : Exact).toReal = threshold := by
    change Decimal.toReal ⟨10, 1, -90⟩ = _
    norm_num [Decimal.toReal, threshold]
  rw [matters, Exact.lt_iff, Exact.toReal_abs, hd]

def Clear (x : Exact) : Prop := x.toReal = 0 ∨ threshold < |x.toReal|

lemma Clear.eq_zero {x : Exact} (h : Clear x) (hx : matters x = false) : x.toReal = 0 := by
  rcases h with h | h
  · exact h
  · rw [(matters_iff x).2 h] at hx
    cases hx

lemma rateSlope_sum {b E : Exact} (hb : Clear b) (hE : Clear E) (σ : Memory) :
    SumOr σ (rateSlope b E) (b.toReal + E.toReal / σ.var "T") := by
  have ha := Factor.group ((Factor.full (σ := σ) E).term.div (Factor.var "T")).value
  unfold rateSlope
  cases hmb : matters b <;> cases hmE : matters E <;>
    simp only [Bool.false_eq_true, if_false, if_true, SumOr]
  · rw [hb.eq_zero hmb, hE.eq_zero hmE, zero_div, add_zero]
  · rw [hb.eq_zero hmb, zero_add]
    exact ha.value
  · rw [hE.eq_zero hmE, zero_div, add_zero]
    exact (Factor.full b).value
  · exact value_add (Factor.full b).value ha.term

lemma orderTerm_addend (nu : List Exact) (σ : Memory) : Addend σ (orderTerm nu) (1 - exponentSum nu) := by
  have hs : (Arithmetic.sum nu).toReal = exponentSum nu := Exact.toReal_sum nu
  simp only [orderTerm, Exact.eq_iff, Exact.toReal_unit, hs]
  split_ifs with ho
  · rw [ho, sub_self]
    rfl
  · have ht := (Factor.plain (σ := σ) (Arithmetic.unit - Arithmetic.pointed (Arithmetic.sum nu))).term
    rwa [Exact.toReal_sub, Exact.toReal_unit, Exact.toReal_pointed, hs] at ht

lemma orderTerm_none {nu : List Exact} (h : orderTerm nu = none) : exponentSum nu = 1 := by
  simp only [orderTerm, Exact.eq_iff, Exact.toReal_unit, Exact.toReal_sum] at h
  split_ifs at h with ho
  exact ho

lemma rateSlope_none {b E : Exact} (h : rateSlope b E = none) :
    |b.toReal| ≤ threshold ∧ |E.toReal| ≤ threshold := by
  unfold rateSlope at h
  cases hb : matters b <;> cases hE : matters E <;> simp [hb, hE] at h
  rw [Bool.eq_false_iff, ne_eq, matters_iff, not_lt] at hb hE
  exact ⟨hb, hE⟩

end Parts

/-! ## Bodies -/

section Bodies
variable {r : Reaction ℕ Exact} {σ : Memory}

lemma forwardBody_sum (hb : Clear r.b) (hE : Clear r.E) (k : Ranks) (σ : Memory) : SumOr σ (forwardBody k r)
      (σ.row "fwd_rates" k.all * (forwardShare r (σ.var "T") + (1 - exponentSum r.reactantNu))) := by
  have hf := (Factor.cell (σ := σ) "fwd_rates" k.all).term
  have hsl : SumOr σ (rateSlope r.b r.E) (forwardShare r (σ.var "T")) := rateSlope_sum hb hE σ
  have hor := orderTerm_addend r.reactantNu σ
  unfold forwardBody
  cases ho : orderTerm r.reactantNu with
  | none =>
    rw [ho] at hor
    rw [show 1 - exponentSum r.reactantNu = 0 from hor, add_zero]
    cases hs : rateSlope r.b r.E with
    | none =>
      rw [hs] at hsl
      rw [show forwardShare r (σ.var "T") = 0 from hsl, mul_zero]
      rfl
    | some e =>
      rw [hs] at hsl
      exact (hf.mul (Factor.group hsl).term).value
  | some c =>
    rw [ho] at hor
    cases hs : rateSlope r.b r.E <;> rw [hs] at hsl <;>
      exact (hf.mul (Factor.group (value_getD_add hsl hor)).term).value

variable {e : Expr Exact}

lemma equilibriumFactor_factor {order : Option (Expr Exact)} {x y : ℝ}
    (ho : Addend σ order x) (he : e.value σ = some y) :
    Factor σ (equilibriumFactor order (some e)) (x - σ.var "T" * y) := by
  have hm : Term σ (-Expr.T * .group e) (-σ.var "T" * y) := ((Factor.var "T").neg rfl).term.mul (Factor.group he).term
  unfold equilibriumFactor
  dsimp only
  cases order with
  | none =>
    rw [show x = 0 from ho, zero_sub, ← neg_mul]
    exact Factor.group hm.value
  | some c =>
    rw [sub_eq_add_neg, ← neg_mul]
    exact Factor.group (value_add (Term.value ho) hm)

/-- The body when the reverse rate constant comes from equilibrium and some species changes. -/
lemma equilibriumBody_sum (hb : Clear r.b) (hE : Clear r.E) (hr : r.reversible = true)
    (hs : equilibriumSlope r = .ok (some e)) (k : Ranks) :
    ∃ body, equilibriumBody k r = .ok (some body) ∧ ∀ (σ : Memory) (y : ℝ), e.value σ = some y → body.value σ = some (
        σ.row "fwd_rates" k.all * (forwardShare r (σ.var "T") + (1 - exponentSum r.reactantNu))
          - σ.row "rev_rates" k.reverse *
            (forwardShare r (σ.var "T") + (1 - exponentSum r.productNu - σ.var "T" * y))) := by
  refine ⟨_, by rw [equilibriumBody, hs, ok_bind]; rfl, fun σ y he => ?_⟩
  have hd : Term σ (.group (k.difference r)) (σ.row "fwd_rates" k.all - σ.row "rev_rates" k.reverse) := by
    have h := (net_factor k r σ).term
    rwa [Ranks.net, netValue, hr, if_pos rfl, if_pos rfl] at h
  have hf : SumOr σ (joined ((rateSlope r.b r.E).map fun e => .group (k.difference r) * .group e)
      ((orderTerm r.reactantNu).map fun e => k.forward * e)) _ :=
    joined_sum (Addend.group hd (rateSlope_sum hb hE σ)).sum
      (Addend.times (Factor.cell (σ := σ) "fwd_rates" k.all).term (orderTerm_addend r.reactantNu σ))
  have hfc := equilibriumFactor_factor (orderTerm_addend r.productNu σ) he
  have hbc := Factor.cell (σ := σ) "rev_rates" k.reverse
  generalize joined _ _ = forward at hf
  cases forward with
  | none =>
    dsimp only
    rw [Ranks.backward, ((hbc.neg rfl).term.mul hfc.term).value]
    congr 1
    have hz : _ = (0 : ℝ) := hf
    rw [forwardShare]
    linear_combination -hz
  | some f =>
    dsimp only
    rw [Ranks.backward, value_sub hf (hbc.term.mul hfc.term)]
    congr 1
    rw [forwardShare]
    ring

/-- The body of an irreversible reaction, or of one in equilibrium that changes some species. -/
lemma elementaryBody_sum (hr : PositiveSide r.reactants r.reactantNu) (hp : PositiveSide r.products r.productNu)
    (hb : Clear r.b) (hE : Clear r.E) (hrv : r.reversible = true → r.reverse = [] ∧ ¬Balanced r)
    (k : Ranks) : ∃ body, elementaryBody k r = .ok body ∧ ∀ σ : Memory, SumOr σ body
      (σ.row "fwd_rates" k.all * (forwardShare r (σ.var "T") + (1 - exponentSum r.reactantNu))
        - if r.reversible then σ.row "rev_rates" k.reverse * (forwardShare r (σ.var "T")
            + (1 - exponentSum r.productNu - σ.var "T" *
              ((participants r).map fun s => (r.change s).toReal * σ.row "dBdT" s).sum)) else 0) := by
  unfold elementaryBody
  cases hre : r.reversible with
  | false =>
    refine ⟨_, rfl, fun σ => ?_⟩
    rw [if_neg (by decide), sub_zero]
    exact forwardBody_sum hb hE k σ
  | true =>
    obtain ⟨he, hbl⟩ := hrv hre
    obtain ⟨slope, hs, hsm⟩ := equilibriumSlope_sum hr.toSide hp.toSide
    cases slope with
    | none => exact absurd (equilibriumSlope_none hr.toSide hp.toSide hs) hbl
    | some e =>
      obtain ⟨body, hbd, hv⟩ := equilibriumBody_sum hb hE hre hs k
      refine ⟨some body, by rw [if_pos rfl, he]; exact hbd, fun σ => ?_⟩
      rw [if_pos rfl]
      exact hv σ _ (hsm σ)

end Bodies

/-! ## Elementary reactions -/

section Elementary
variable {m : Mixture} {reactions : List (Reaction ℕ Exact)} {i : ℕ} {r : Reaction ℕ Exact} {σ τ : Memory}

lemma plain_value {body : Expr Exact} {v : ℝ} (h : body.value σ = some v) :
    (plainLead.value body).value σ = some (1 / σ.var "T" * v * σ.var "rho_inv") := by
  have hs := Factor.group ((Factor.one (σ := σ)).term.div (Factor.var "T")).value
  have hm := (hs.term.mul (Factor.group h).term).value
  exact ((Factor.group hm).term.mul (Factor.var "rho_inv").term).value

/-- A reaction without pressure dependence and with an Arrhenius rate constant. -/
structure Plain (r : Reaction ℕ Exact) : Prop where
  thirdBody : r.thirdBody = false
  falloff : r.falloff = false
  plog : r.plog = false
  chebyshev : r.chebyshev = false

/-- The statements for the derivative of such a reaction. -/
def plainItems (k : Ranks) (body : Option (Expr Exact)) : List (Item Exact) :=
  .step (temperatureRemark k.all) :: .consult (plainLead.value (.hole : Expr Exact)).cells ::
    (body.map fun e => [Item.step (.setVar "j_temp" (plainLead.value e))]).getD []

variable {body : Option (Expr Exact)}

lemma temperatureItems_plain (h : Plain r) {k : Ranks}
    (hb : elementaryBody k r = .ok body) (excess : Option (Excess Exact)) :
    temperatureItems excess k r = .ok (plainItems k body, body.isSome, excess) := by
  have hl : leadingPart excess k r = .ok ([], plainLead, excess) := by
    simp only [leadingPart, h.falloff, h.thirdBody, Bool.false_eq_true, if_false]
  have ha : slopeAssignment plainLead k r =
      .ok (body.map fun e => [Item.step (.setVar "j_temp" (plainLead.value e))]) := by
    simp only [slopeAssignment, h.plog, h.chebyshev, Bool.false_eq_true, if_false, hb]
    rfl
  simp only [temperatureItems, hl, ha, ok_bind]
  rw [Option.isSome_map]
  rfl

lemma plainItems_run (k : Ranks) {v : ℝ} (h : SumOr τ body v) : ∃ υ, runItems τ (plainItems k body) = some υ ∧
      (if body.isSome then υ.var "j_temp" else 0) = 1 / τ.var "T" * v * τ.var "rho_inv" := by
  cases body with
  | none =>
    refine ⟨τ, rfl, ?_⟩
    rw [show v = 0 from h, mul_zero, zero_mul]
    rfl
  | some e =>
    refine ⟨τ.setVar "j_temp" (1 / τ.var "T" * v * τ.var "rho_inv"), ?_, by simp⟩
    simp only [plainItems, Option.map_some, Option.getD_some, runItems, Item.run, temperatureRemark,
      run_remark, run_setVar "j_temp" (plain_value h), Option.bind_some]

/-- The locations from which the temperature derivative of a reaction is computed hold the state and
the rates of progress. -/
structure HoldsRates (m : Mixture) (reactions : List (Reaction ℕ Exact)) (i : ℕ) (r : Reaction ℕ Exact)
    (σ : Memory) : Prop where
  temperature : σ.var "T" = m.T
  volume : σ.var "rho_inv" = 1 / m.density
  forward : σ.row "fwd_rates" i = forwardLaw r m
  reverse : r.reversible = true → σ.row "rev_rates" (Emit.reverseRank reactions i) = reverseLaw r m

/-- The arrays and variables that a temperature derivative reads. -/
def readNames : List String := ["T", "rho_inv", "fwd_rates", "rev_rates", "dBdT"]

lemma HoldsRates.congr (h : HoldsRates m reactions i r σ)
    (ha : ∀ a ∈ readNames, a ≠ "dBdT" → ∀ j, σ (.cell a j) = τ (.cell a j)) : HoldsRates m reactions i r τ where
  temperature := (ha "T" (by decide) (by decide) none).symm.trans h.temperature
  volume := (ha "rho_inv" (by decide) (by decide) none).symm.trans h.volume
  forward := (ha "fwd_rates" (by decide) (by decide) _).symm.trans h.forward
  reverse hr := (ha "rev_rates" (by decide) (by decide) _).symm.trans (h.reverse hr)

lemma hasDerivAt_plain (h : Plain r) (hr : Side r.reactants r.reactantNu) (hp : Side r.products r.productNu)
    (hrv : r.reversible = true → r.reverse = []) (hT : 0 < m.T)
    (hmd : ∀ s ∈ participants r, m.T ≠ (memberAt m.species s).midpoint.toReal) :
    HasDerivAt (fun T => (forwardLaw r (m.withTemperature T) - reverseLaw r (m.withTemperature T)) /
        (m.withTemperature T).density)
      (1 / m.T * (forwardLaw r m * (forwardShare r m.T + (1 - exponentSum r.reactantNu))
        - reverseLaw r m * (forwardShare r m.T + (1 - exponentSum r.productNu
            - m.T * equilibriumSlopeAt m.species r m.T))) * (1 / m.density)) m.T := by
  have ho : ∀ T, modificationLaw r (m.withTemperature T) = 1 := fun T => by
    rw [modificationLaw, h.falloff, h.thirdBody, if_neg (by decide), if_neg (by decide)]
  have hm : SlopeAt (fun T => modificationLaw r (m.withTemperature T)) 0 m.T := by
    rw [funext ho]
    exact SlopeAt.const 1 m.T
  have hb := slopeAt_reverseLaw hT hp fun hre =>
    slopeAt_reverseConstantLaw_equilibrium hT (hrv hre) (slopeAt_equilibriumLaw hT hmd)
  have ha := hasDerivAt_progressLaw hT hm (slopeAt_forwardLaw hT hr) hb
  simp only [progressLaw, ho, one_mul] at ha
  refine ha.congr_deriv ?_
  rw [show modificationLaw r m = 1 from ho m.T]
  ring

/-- The emitted temperature derivative of an elementary reaction, irreversible or in equilibrium. The
code before the loop stores derivatives of equilibrium exponents in `dBdT`; whatever happens to other
locations until the code of the reaction runs, `j_temp` is then the derivative of the net rate over
the density at fixed pressure and mass fractions. Where nothing is written the derivative is zero. -/
theorem temperature_derivative {l : Language} (hl : l = .c ∨ l = .cuda) (hi : reactions[i]? = some r)
    (hmem : ∀ q ∈ reactions, ∀ s ∈ participants q, s < m.count) (h : Plain r)
    (hr : PositiveSide r.reactants r.reactantNu) (hp : PositiveSide r.products r.productNu)
    (hb : Clear r.b) (hE : Clear r.E)
    (hreverse : r.reversible = true → r.reverse = [] ∧ ∃ s, (r.change s).toReal ≠ 0)
    (hT : 0 < m.T) (hmid : ∀ sp ∈ m.species, m.T ≠ sp.midpoint.toReal) (excess : Option (Excess Exact)) :
    ∃ slopes items writes D, equilibriumSlopeItems l m.species reactions = .ok slopes ∧
      temperatureItems excess (ranksAt reactions i) r = .ok (items, writes, excess) ∧
      HasDerivAt (fun T => (forwardLaw r (m.withTemperature T) - reverseLaw r (m.withTemperature T)) /
        (m.withTemperature T).density) D m.T ∧
      ∀ σ, HoldsRates m reactions i r σ → ∃ ρ, runItems σ slopes = some ρ ∧
        ∀ τ, Agree readNames ρ τ → ∃ υ, runItems τ items = some υ ∧ (if writes then υ.var "j_temp" else 0) = D := by
  have hmem' : ∀ s ∈ equilibriumSpecies reactions, s < m.species.length := by
    intro s hs
    simp only [equilibriumSpecies, mem_eraseDups, mem_flatMap, mem_filter, mem_append] at hs
    obtain ⟨q, ⟨hq, -⟩, hs⟩ := hs
    exact hmem q hq s ((mem_participants q).2 hs)
  have hri : r ∈ reactions := mem_of_getElem? hi
  have hbalanced : r.reversible = true → r.reverse = [] ∧ ¬Balanced r := fun hrev =>
    ⟨(hreverse hrev).1, not_balanced_of_change (hreverse hrev).2⟩
  have hmidr : ∀ s ∈ participants r, m.T ≠ (memberAt m.species s).midpoint.toReal := fun s hs =>
    hmid _ (mem_of_getElem? (getElem?_memberAt (hmem r hri s hs)))
  obtain ⟨slopes, hslopes, hrun⟩ := equilibriumSlopeItems_run hl hmem'
  obtain ⟨body, hbody, hsum⟩ := elementaryBody_sum hr hp hb hE hbalanced (ranksAt reactions i)
  refine ⟨slopes, _, _, _, hslopes, temperatureItems_plain h hbody excess,
    hasDerivAt_plain h hr.toSide hp.toSide (fun hrev => (hreverse hrev).1) hT hmidr, fun σ hσ => ?_⟩
  obtain ⟨ρ, hρ, hsame, hstored⟩ := hrun σ
  refine ⟨ρ, hρ, fun τ hτ => ?_⟩
  have hholds : HoldsRates m reactions i r τ := hσ.congr fun a ha hne j =>
    (hsame a j hne).symm.trans (hτ a ha j)
  -- the stored entries of the participants are still there
  have hentries : r.reversible = true → ((participants r).map fun s => (r.change s).toReal *
      τ.row "dBdT" s).sum = equilibriumSlopeAt m.species r m.T := by
    intro hrev
    unfold equilibriumSlopeAt
    congr 1
    refine map_congr_left fun s hs => ?_
    have hentry : τ.row "dBdT" s = _ := (hτ "dBdT" (by decide) _).symm.trans
      (hstored s (mem_equilibriumSpecies hri hrev (hreverse hrev).1 hs))
    rw [hentry, hσ.temperature]
  have hvalue := hsum τ
  have hback : (if r.reversible then τ.row "rev_rates" (ranksAt reactions i).reverse * (forwardShare r (τ.var "T")
      + (1 - exponentSum r.productNu - τ.var "T" *
        ((participants r).map fun s => (r.change s).toReal * τ.row "dBdT" s).sum)) else 0) =
      reverseLaw r m * (forwardShare r m.T + (1 - exponentSum r.productNu
        - m.T * equilibriumSlopeAt m.species r m.T)) := by
    cases hrev : r.reversible with
    | false => simp [reverseLaw, hrev]
    | true =>
      rw [if_pos rfl, hentries hrev, hholds.temperature]
      exact congrArg (· * _) (hholds.reverse hrev)
  rw [hback, hholds.temperature, show τ.row "fwd_rates" (ranksAt reactions i).all = _ from hholds.forward] at hvalue
  obtain ⟨υ, hυ, hassigned⟩ := plainItems_run (ranksAt reactions i) hvalue
  rw [hholds.temperature, hholds.volume] at hassigned
  exact ⟨υ, hυ, hassigned⟩

def atomRecombination : Reaction ℕ Exact :=
  Reaction.elementary true [0] [.count 2] [1] [.count 1] (.measure 1.78e12) (.count (-1)) (.measure 0)

/-- The memory in which the derivative of a single reaction is computed. -/
def lawMemory (m : Mixture) (r : Reaction ℕ Exact) : Memory :=
  jacobianMemory m ⟨forwardLaw r m, reverseLaw r m, modificationLaw r m⟩ 0

lemma lawMemory_holds (m : Mixture) (r : Reaction ℕ Exact) : HoldsRates m [r] 0 r (lawMemory m r) :=
  ⟨rfl, rfl, rfl, fun _ => rfl⟩

lemma atomRecombination_change : (atomRecombination.change 1).toReal = 1 := by
  rw [Reaction.change_of_product (x := .count 1) (mem_singleton_self 1) (by decide) rfl]
  simp

/-- The derivative of the recombination at 1500 K. -/
theorem atomRecombination_temperature : ∃ slopes items writes D υ,
    equilibriumSlopeItems .c hydrogenMixture.species [atomRecombination] = .ok slopes ∧
    temperatureItems none (ranksAt [atomRecombination] 0) atomRecombination = .ok (items, writes, none) ∧
    HasDerivAt (fun T => (forwardLaw atomRecombination (hydrogenMixture.withTemperature T)
      - reverseLaw atomRecombination (hydrogenMixture.withTemperature T)) /
        (hydrogenMixture.withTemperature T).density) D 1500 ∧
    runItems (lawMemory (hydrogenMixture.withTemperature 1500) atomRecombination) (slopes ++ items) = some υ ∧
    (if writes then υ.var "j_temp" else 0) = D := by
  have hmem : ∀ q ∈ [atomRecombination], ∀ s ∈ participants q, s < hydrogenMixture.count := by
    simp [atomRecombination, Reaction.elementary, hydrogenMixture, Mixture.count]
  have hmid : ∀ sp ∈ hydrogenMixture.species, (1500 : ℝ) ≠ sp.midpoint.toReal := by
    norm_num [hydrogenMixture, Species.named]
  have hb : Clear atomRecombination.b := .inr (by norm_num [atomRecombination, Reaction.elementary, threshold])
  obtain ⟨slopes, items, writes, D, hslopes, hitems, hD, hrun⟩ :=
    temperature_derivative (m := hydrogenMixture.withTemperature 1500) (r := atomRecombination) (i := 0)
      (.inl rfl) rfl hmem ⟨rfl, rfl, rfl, rfl⟩
      ⟨⟨rfl, by decide⟩, by norm_num [atomRecombination, Reaction.elementary]⟩
      ⟨⟨rfl, by decide⟩, by norm_num [atomRecombination, Reaction.elementary]⟩ hb (.inl rfl)
      (fun _ => ⟨rfl, 1, by rw [atomRecombination_change]; norm_num⟩) (by norm_num) hmid none
  obtain ⟨ρ, hρ, hrest⟩ := hrun _ (lawMemory_holds (hydrogenMixture.withTemperature 1500) atomRecombination)
  obtain ⟨υ, hυ, hvalue⟩ := hrest ρ fun _ _ _ => rfl
  exact ⟨slopes, items, writes, D, υ, hslopes, hitems, hD, by rw [runItems_append, hρ, Option.bind_some, hυ], hvalue⟩

end Elementary

/-! ## Reactions with a pressure modification -/

section Modified
variable {m : Mixture} {r : Reaction ℕ Exact} {k : Ranks} {excess next : Option (Excess Exact)}
  {items : List (Item Exact)}

def HasThree (xs : List Exact) : Prop := ∃ a b e rest, xs = a :: b :: e :: rest

/-- A reaction with a third body, or one between two limits without a broadening factor, one of which
is given. -/
structure PressureReaction (r : Reaction ℕ Exact) : Prop where
  modified : r.isModified = true
  troe : r.troe = false
  sri : r.sri = false
  limits : r.falloff = true → HasThree r.low ∧ r.high = [] ∨ r.low = [] ∧ HasThree r.high
  reactants : Side r.reactants r.reactantNu
  products : Side r.products r.productNu
  reverse : r.reverse = [] ∨ HasThree r.reverse

/-- Nothing is written only for an Arrhenius rate constant without body. -/
lemma elementaryBody_of_unwritten (h : temperatureItems excess k r = .ok (items, false, next)) :
    elementaryBody k r = .ok none := by
  obtain ⟨⟨before, lead, rest⟩, -, h⟩ := bind_eq_ok.1 h
  obtain ⟨assignment, ha, h⟩ := bind_eq_ok.1 h
  have hn : assignment = none := by
    have hs : assignment.isSome = false := by
      injection h with h
      injection h with _ h
      injection h
    simpa using hs
  subst hn
  unfold slopeAssignment at ha
  dsimp only at ha
  split_ifs at ha
  · obtain ⟨x, -, hx⟩ := bind_eq_ok.1 ha
    cases hx
  · obtain ⟨x, -, hx⟩ := bind_eq_ok.1 ha
    cases hx
  · obtain ⟨body, hb, hx⟩ := bind_eq_ok.1 ha
    rw [hb, Option.map_eq_none_iff.1 (pure_eq_ok.1 hx)]

lemma forwardBody_none (h : forwardBody k r = none) : rateSlope r.b r.E = none ∧ orderTerm r.reactantNu = none := by
  unfold forwardBody at h
  split at h
  · next hs ho => exact ⟨hs, ho⟩
  · cases h
  · cases h

lemma equilibriumBody_none (h : equilibriumBody k r = .ok none) :
    rateSlope r.b r.E = none ∧ orderTerm r.reactantNu = none ∧ orderTerm r.productNu = none ∧
      equilibriumSlope r = .ok none := by
  obtain ⟨slope, hs, h⟩ := bind_eq_ok.1 h
  dsimp only at h
  split_ifs at h with hp
  · cases h
  · simp only [Bool.or_eq_true, not_or, Option.not_isSome_iff_eq_none] at hp
    have hf := pure_eq_ok.1 h
    rw [joined_eq_none, Option.map_eq_none_iff, Option.map_eq_none_iff] at hf
    exact ⟨hf.1, hf.2, hp.2, by rw [hs, hp.1]⟩

lemma twoWayBody_none (h : twoWayBody k r = .ok none) :
    rateSlope r.b r.E = none ∧ orderTerm r.reactantNu = none ∧ orderTerm r.productNu = none ∧
      reverseSlope r = .ok none := by
  obtain ⟨slope, hs, h⟩ := bind_eq_ok.1 h
  have h := pure_eq_ok.1 h
  split at h
  · cases h
  · next hb =>
    rw [Option.map_eq_none_iff, joined_eq_none] at h hb
    exact ⟨h.1, h.2, hb.2, by rw [hs, hb.1]⟩

lemma forward_flat (h : elementaryBody k r = .ok none) :
    |r.b.toReal| ≤ threshold ∧ |r.E.toReal| ≤ threshold ∧ exponentSum r.reactantNu = 1 := by
  have hn : rateSlope r.b r.E = none ∧ orderTerm r.reactantNu = none := by
    unfold elementaryBody at h
    split_ifs at h
    · obtain ⟨hs, ho, -⟩ := equilibriumBody_none h
      exact ⟨hs, ho⟩
    · obtain ⟨hs, ho, -⟩ := twoWayBody_none h
      exact ⟨hs, ho⟩
    · exact forwardBody_none (Except.ok.inj h)
  obtain ⟨hb, hE⟩ := rateSlope_none hn.1
  exact ⟨hb, hE, orderTerm_none hn.2⟩

/-- What a missing body says of a reverse direction in equilibrium. -/
lemma equilibrium_flat (hr : PressureReaction r) (hrv : r.reversible = true) (he : r.reverse = [])
    (h : elementaryBody k r = .ok none) : exponentSum r.productNu = 1 ∧ Balanced r := by
  simp only [elementaryBody, hrv, he, isEmpty_nil, if_true] at h
  obtain ⟨-, -, ho, hs⟩ := equilibriumBody_none h
  exact ⟨orderTerm_none ho, equilibriumSlope_none hr.reactants hr.products hs⟩

/-- What a missing body says of a reverse direction with its own rate constant. -/
lemma given_flat {a b e : Exact} {rest : List Exact} (hr : r.reversible = true)
    (hex : r.reverse = a :: b :: e :: rest) (h : elementaryBody k r = .ok none) :
    |b.toReal| ≤ threshold ∧ |e.toReal| ≤ threshold ∧ exponentSum r.productNu = 1 := by
  simp only [elementaryBody, hr, hex, isEmpty_cons, if_true, Bool.false_eq_true, if_false] at h
  obtain ⟨-, -, ho, hs⟩ := twoWayBody_none h
  rw [reverseSlope, hex] at hs
  obtain ⟨hb, he⟩ := rateSlope_none (Except.ok.inj hs : rateSlope b e = none)
  exact ⟨hb, he, orderTerm_none ho⟩

/-- The derivative that is not written: what the modification changes by itself, and what the
parameters below the threshold leave. -/
def unwritten (r : Reaction ℕ Exact) (m : Mixture) : ℝ := modificationLaw r m / m.density *
    (forwardLaw r m * (modificationShare r m + forwardShare r m.T)
      - reverseLaw r m * (modificationShare r m + reverseShare r m.T)) / m.T

lemma share_le {b e : ℝ} {T : ℝ} (hT : 0 < T) (hb : |b| ≤ threshold) (he : |e| ≤ threshold) :
    |b + e / T| ≤ threshold * (1 + 1 / T) := by
  have hq : |e / T| ≤ threshold / T := by
    rw [abs_div, abs_of_pos hT]
    exact div_le_div_of_nonneg_right he hT.le
  calc |b + e / T| ≤ |b| + |e / T| := abs_add_le _ _
    _ ≤ threshold + threshold / T := add_le_add hb hq
    _ = threshold * (1 + 1 / T) := by ring

/-- Where no temperature derivative is written for a reaction with a third body or with falloff, the
rate of progress over the density still changes with the temperature, as its modification does. The
rate constants contribute next to nothing, so the derivative vanishes only with the net rate or with
the change of the modification. -/
theorem unwritten_derivative (hr : PressureReaction r) (hT : 0 < m.T)
    (hpressure : r.falloff = true → 1 + pressureLaw r m ≠ 0)
    (h : temperatureItems excess k r = .ok (items, false, next)) :
    HasDerivAt (fun T => progressLaw r (m.withTemperature T) / (m.withTemperature T).density) (unwritten r m) m.T ∧
      |forwardShare r m.T| ≤ threshold * (1 + 1 / m.T) ∧
      (r.reversible = true → |reverseShare r m.T| ≤ threshold * (1 + 1 / m.T)) := by
  have hbody := elementaryBody_of_unwritten h
  obtain ⟨hb, hE, horder⟩ := forward_flat hbody
  have hforwardShare : |forwardShare r m.T| ≤ threshold * (1 + 1 / m.T) := share_le hT hb hE
  have hreverse : r.reversible = true → SlopeAt (reverseConstantLaw r m.species) (reverseShare r m.T) m.T ∧
      exponentSum r.productNu = 1 ∧ |reverseShare r m.T| ≤ threshold * (1 + 1 / m.T) := by
    intro hrev
    rcases hr.reverse with hexplicit | ⟨a, b, e, rest, hexplicit⟩
    · obtain ⟨hproducts, hbalanced⟩ := equilibrium_flat hr hrev hexplicit hbody
      have hshare : reverseShare r m.T = forwardShare r m.T := by rw [reverseShare, hexplicit]
      have hslope : SlopeAt (reverseConstantLaw r m.species) (forwardShare r m.T - 0) m.T :=
        slopeAt_reverseConstantLaw_equilibrium hT hexplicit (slopeAt_equilibriumLaw_balanced hbalanced)
      rw [sub_zero] at hslope
      rw [hshare]
      exact ⟨hslope, hproducts, hforwardShare⟩
    · obtain ⟨hb', he', hproducts⟩ := given_flat hrev hexplicit hbody
      have hshare : reverseShare r m.T = b.toReal + e.toReal / m.T := by rw [reverseShare, hexplicit]
      rw [hshare]
      exact ⟨slopeAt_reverseConstantLaw_given hT hexplicit, hproducts, share_le hT hb' he'⟩
  refine ⟨?_, hforwardShare, fun hrev => (hreverse hrev).2.2⟩
  have hback := slopeAt_reverseLaw hT hr.products fun hrev => (hreverse hrev).1
  refine (hasDerivAt_progressLaw hT (slopeAt_modificationLaw hT hpressure)
    (slopeAt_forwardLaw hT hr.reactants) hback).congr_deriv ?_
  have hproducts : reverseLaw r m * exponentSum r.productNu = reverseLaw r m := by
    cases hrev : r.reversible with
    | false => simp [reverseLaw, hrev]
    | true => rw [(hreverse hrev).2.1, mul_one]
  rw [unwritten, horder]
  linear_combination (modificationLaw r m / m.density / m.T) * hproducts

def collisionalDissociation : Reaction ℕ Exact :=
  { Reaction.elementary false [1] [.count 1] [0] [.count 2] (.measure 1) (.measure 0) (.measure 0) with
    thirdBody := true }

lemma collisionalDissociation_unwritten (k : Ranks) : ∃ items,
    temperatureItems none k collisionalDissociation = .ok (items, false, none) := by
  have hm : matters (.measure 0 : Exact) = false := by
    rw [Bool.eq_false_iff, ne_eq, matters_iff]
    norm_num [threshold]
  have hs : rateSlope (.measure 0) (.measure 0 : Exact) = none := by
    rw [rateSlope, hm]
    rfl
  have ho : orderTerm [(.count 1 : Exact)] = none := by
    rw [orderTerm, (Exact.eq_iff _ _).2 (by simp)]
    rfl
  have hb : elementaryBody k collisionalDissociation = .ok none := by
    simp only [elementaryBody, forwardBody, collisionalDissociation, Reaction.elementary, hs, ho]
    rfl
  have ha : ∀ lead, slopeAssignment lead k collisionalDissociation = .ok none := by
    intro lead
    simp only [slopeAssignment, hb]
    rfl
  have hl : leadingPart none k collisionalDissociation = .ok ([], thirdBodyLead k collisionalDissociation, none) := rfl
  refine ⟨[.step (temperatureRemark k.all), .consult ((thirdBodyLead k collisionalDissociation).value .hole).cells], ?_⟩
  simp only [temperatureItems, ha]
  rfl

lemma hydrogen_forwardLaw_ne_zero : forwardLaw collisionalDissociation hydrogenMixture ≠ 0 := by
  have hc := hydrogenMixture_concentration (s := 1) (by decide)
  simpa [forwardLaw, forwardConstantLaw, arrheniusLaw, powerProduct, collisionalDissociation,
    Reaction.elementary] using hc

/-- No derivative is written for the dissociation, whose rate falls with the temperature. -/
theorem dissociation_derivative : ∃ items D,
    temperatureItems none (ranksAt [collisionalDissociation] 0) collisionalDissociation = .ok (items, false, none) ∧
    HasDerivAt (fun T => progressLaw collisionalDissociation (hydrogenMixture.withTemperature T) /
      (hydrogenMixture.withTemperature T).density) D hydrogenMixture.T ∧ D ≠ 0 := by
  have hT : 0 < hydrogenMixture.T := by norm_num [hydrogenMixture]
  have hP : hydrogenMixture.P ≠ 0 := by norm_num [hydrogenMixture]
  obtain ⟨items, hitems⟩ := collisionalDissociation_unwritten (ranksAt [collisionalDissociation] 0)
  obtain ⟨hD, -⟩ := unwritten_derivative (m := hydrogenMixture) (r := collisionalDissociation)
    ⟨rfl, rfl, rfl, fun h => absurd h (by decide), ⟨rfl, by decide⟩, ⟨rfl, by decide⟩, .inl rfl⟩ hT
    (fun h => absurd h (by decide)) hitems
  refine ⟨items, _, hitems, hD, ?_⟩
  have hmodification : modificationLaw collisionalDissociation hydrogenMixture = hydrogenMixture.total := by
    simp [modificationLaw, collisionalDissociation, Reaction.elementary, thirdBodies]
  have hshares : modificationShare collisionalDissociation hydrogenMixture
      + forwardShare collisionalDissociation hydrogenMixture.T = -1 := by
    simp [modificationShare, forwardShare, collisionalDissociation, Reaction.elementary]
  have hback : reverseLaw collisionalDissociation hydrogenMixture = 0 := rfl
  rw [unwritten, hshares, hback, zero_mul, sub_zero, hmodification]
  refine div_ne_zero (mul_ne_zero (div_ne_zero ?_ ?_) (mul_ne_zero hydrogen_forwardLaw_ne_zero (by norm_num))) hT.ne'
  · exact div_ne_zero hP (mul_ne_zero Exact.gasConstant_pos.ne' hT.ne')
  · exact Mixture.density_ne_zero hT.ne' hP hydrogenMixture_moles

end Modified

end

end Kinetics.Jacobian
