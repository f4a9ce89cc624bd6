import Kinetics.Proofs.RateLaw
/-!
# Coefficients that are not whole

A rate has each concentration as a factor, raised to a positive coefficient, and its derivative by a
concentration has the power that is lower by one. The emitted derivative leaves a power below zero
out. So it is right exactly where the coefficient is at least one: `power_rule`.
-/

open List

namespace Kinetics.Jacobian

open Code

noncomputable section

variable {sp : List ℕ} {nu : List Exact} {side : List (ℕ × Exact)} {t : ℕ × Exact} {c : ℕ → ℝ}

lemma PositiveSide.nonneg (h : PositiveSide sp nu) (t : ℕ × Exact) (ht : t ∈ sp.zip nu) : 0 ≤ t.2.toReal :=
  (h.positive _ (of_mem_zip ht).2).le

lemma powerProduct_update (c : ℕ → ℝ) (hn : (side.map (·.1)).Nodup) (ht : t ∈ side) (y : ℝ) :
    powerProduct (Function.update c t.1 y) side = y ^ t.2.toReal * otherPowers c t.1 side := by
  induction side with
  | nil => cases ht
  | cons u rest ih =>
    rw [map_cons, nodup_cons] at hn
    unfold powerProduct otherPowers at ih ⊢
    rw [map_cons, map_cons, prod_cons, prod_cons]
    rcases mem_cons.1 ht with rfl | ht
    · rw [Function.update_self, if_pos rfl, one_mul]
      congr 2
      refine map_congr_left fun u hu => ?_
      have hne : u.1 ≠ t.1 := fun he => hn.1 (he ▸ mem_map_of_mem hu)
      rw [Function.update_of_ne hne, if_neg hne]
    · have hne : u.1 ≠ t.1 := fun he => hn.1 (he ▸ mem_map_of_mem ht)
      rw [Function.update_of_ne hne, if_neg hne, ih hn.2 ht]
      ring

lemma hasDerivAt_powerProduct (hn : (side.map (·.1)).Nodup) (ht : t ∈ side) (hc : 0 < c t.1) :
    HasDerivAt (fun y => powerProduct (Function.update c t.1 y) side)
      (t.2.toReal * c t.1 ^ (t.2.toReal - 1) * otherPowers c t.1 side) (c t.1) := by
  simp only [powerProduct_update c hn ht]
  exact (Real.hasDerivAt_rpow_const (.inl hc.ne')).mul_const _

/-- What is written for the derivative by the concentration of species `s`. -/
def WritesSlope (constant : String) (side : List (ℕ × Exact)) (s : ℕ) (e : Option (Expr Exact)) : Prop :=
  (e.isSome ↔ s ∈ side.map (·.1)) ∧ ∀ x a, (s, x) ∈ side → e = some a →
    (∀ σ, a.value σ = some (σ.var constant * (x.toReal * σ.row "conc" s ^ max (x.toReal - 1) 0 *
      otherPowers (σ.row "conc") s side))) ∧ (IsSlope constant side s a ↔ 1 ≤ x.toReal)

/-- A concentration of two among others of one shows that a power is missing. -/
lemma isSlope_iff {constant : String} {e : Expr Exact} (hn : (side.map (·.1)).Nodup) (ht : t ∈ side) (hx : 0 < t.2.toReal)
    (he : ∀ σ, e.value σ = some (σ.var constant * (t.2.toReal * σ.row "conc" t.1 ^ max (t.2.toReal - 1) 0 *
      otherPowers (σ.row "conc") t.1 side))) : IsSlope constant side t.1 e ↔ 1 ≤ t.2.toReal := by
  constructor
  · intro hs
    by_contra hlt
    let σ : Memory := fun p => if p = .cell "conc" (some t.1) then 2 else 1
    have hr : ∀ i : ℕ, σ.row "conc" i = if i = t.1 then 2 else 1 := fun i => by simp [σ, Memory.row]
    have hp : ∀ i : ℕ, 0 < σ.row "conc" i := fun i => by rw [hr]; split <;> norm_num
    have ho : otherPowers (σ.row "conc") t.1 side = 1 := by
      refine prod_eq_one fun y hy => ?_
      obtain ⟨u, -, rfl⟩ := mem_map.1 hy
      split
      · rfl
      · next hne => rw [hr, if_neg hne, Real.one_rpow]
    obtain ⟨v, hv, hd⟩ := hs σ hp
    have hv' := (he σ).symm.trans hv
    have hk : σ.var constant = 1 := by simp [σ, Memory.var]
    rw [max_eq_right (by linarith), Real.rpow_zero, ho, hk] at hv'
    have hu := hd.unique ((hasDerivAt_powerProduct hn ht (hp t.1)).const_mul _)
    rw [← Option.some.inj hv', ho, hk, hr, if_pos rfl] at hu
    have h2 : (2 : ℝ) ^ (t.2.toReal - 1) < 1 := Real.rpow_lt_one_of_one_lt_of_neg (by norm_num) (by linarith)
    nlinarith
  · intro h1 σ hp
    refine ⟨_, he σ, ?_⟩
    rw [max_eq_left (by linarith)]
    exact (hasDerivAt_powerProduct hn ht (hp t.1)).const_mul _

lemma directionSlope_writes (h : PositiveSide sp nu) (constant : String) (s : ℕ) :
    ∃ e, directionSlope constant sp nu s = .ok e ∧ WritesSlope constant (sp.zip nu) s e := by
  have hf : (sp.zip nu).map (·.1) = sp := map_fst_zip h.length_eq.ge
  unfold directionSlope
  by_cases hs : s ∈ (sp.zip nu).map (·.1)
  · obtain ⟨t, ht, rfl⟩ := mem_map.1 hs
    obtain ⟨e, he, -, hv⟩ := concentrationSlope_power h.toSide h.nonneg ht constant
    refine ⟨some e, by rw [if_pos (by simpa [hf] using hs), he]; rfl, by simpa using hs, ?_⟩
    rintro x a hx ⟨⟩
    obtain rfl : t.2 = x := by
      have h₁ := coefficient_of_mem h.nodup ht
      rw [coefficient_of_mem h.nodup hx] at h₁
      exact (Except.ok.inj h₁).symm
    have hn : ((sp.zip nu).map (·.1)).Nodup := by rw [hf]; exact h.nodup
    exact ⟨fun σ => (hv σ).value, isSlope_iff hn ht (h.positive _ (of_mem_zip ht).2) fun σ => (hv σ).value⟩
  · refine ⟨none, by rw [if_neg (by simpa [hf] using hs)], by simpa using hs, fun x a hx => ?_⟩
    exact absurd (mem_map_of_mem hx) hs

variable {r : Reaction ℕ Exact} {species : List (Species Exact)} {final : Species Exact}

lemma rateSlopes_writes (hr : PositiveSide r.reactants r.reactantNu) (hp : PositiveSide r.products r.productNu) (j : ℕ) :
    ∃ forward backward, rateSlopes r j = .ok (forward, backward) ∧
      WritesSlope "kf" (r.reactants.zip r.reactantNu) j forward ∧
      if r.reversible then WritesSlope "kr" (r.products.zip r.productNu) j backward else backward = none := by
  obtain ⟨forward, hf, hfw⟩ := directionSlope_writes hr "kf" j
  obtain ⟨backward, hb, hbw⟩ := directionSlope_writes hp "kr" j
  cases hv : r.reversible
  · exact ⟨forward, none, by simp only [rateSlopes, hf, hv]; rfl, hfw, rfl⟩
  · exact ⟨forward, backward, by simp only [rateSlopes, hf, hb, hv]; rfl, hfw, hbw⟩

/-- The expression is the product of the concentrations of a side with a rate constant. -/
def IsRate (side : List (ℕ × Exact)) (constant e : Expr Exact) : Prop :=
  ∀ σ v, Term σ constant v → Term σ e (powerProduct (σ.row "C") side * v)

/-- The rates of an elementary reaction are products of powers, whatever the coefficients are. The
derivative by a species has a term for each direction, which is the derivative of the product
exactly if the coefficient is at least one. -/
theorem power_rule (hr : PositiveSide r.reactants r.reactantNu) (hp : PositiveSide r.products r.productNu)
    (hm : r.isModified = false) (hc : r.collider = none) (hl : species.getLast? = some final) (hw : final.weight.toReal ≠ 0)
    (k : Ranks) (i j : ℕ) (weight : Exact) :
    (∀ e, (if Emit.keepsRateConstant r then .ok (.var "kf") else Rate.arrhenius r.A r.b r.E) = .ok e →
      ∃ p, Emit.forwardRate r i = .ok (.set (.cell "fwd_rxn_rates" i) p) ∧ IsRate (r.reactants.zip r.reactantNu) e p) ∧
    (∀ e, (if r.reverse.isEmpty then .ok (.var "kf") else Rate.arrheniusOf r.reverse) = .ok e →
      ∃ p, Emit.reverseRate r i = .ok (.set (.cell "rev_rxn_rates" i) (if r.reverse.isEmpty then p / .var "Kc" else p)) ∧
        IsRate (r.products.zip r.productNu) e p) ∧
    ∃ forward backward fraction last, Arithmetic.div weight final.weight = .ok fraction ∧
      speciesDerivative species k r j weight =
        .ok (addSlopes (.var "j_temp" * .full (Arithmetic.unit - fraction)) fraction (forward, backward) last) ∧
      WritesSlope "kf" (r.reactants.zip r.reactantNu) j forward ∧
      if r.reversible then WritesSlope "kr" (r.products.zip r.productNu) j backward else backward = none := by
  have hd := Exact.div_ok (a := weight) hw
  obtain ⟨forward, backward, ho, hfw, hbw⟩ := rateSlopes_writes hr hp j
  obtain ⟨f, b, hn, -, -⟩ := rateSlopes_writes hr hp (species.length - 1)
  refine ⟨fun e he => ⟨_, forwardRate_eq hr.toSide i he, fun σ v hv => sideProduct_power _ hr.nonneg hv⟩,
    fun e he => ⟨sideProduct {} (r.products.zip r.productNu) e, reverseRate_eq hp.toSide i ?_,
      fun σ v hv => sideProduct_power _ hp.nonneg hv⟩, forward, backward, _, lastSlope (f, b), hd, ?_, hfw, hbw⟩
  · cases hv : r.reverse.isEmpty <;> simp only [hv, if_true, Bool.false_eq_true, if_false] at he ⊢
    · rw [he]
      rfl
    · cases he
      rfl
  · have hs : ∀ fraction sum, addColliderShare sum species r j weight fraction = .ok sum := by
      intro fraction sum
      rw [Reaction.isModified, Bool.or_eq_false_iff] at hm
      simp [addColliderShare, hm.1, hm.2, hc, pure_ok]
    simp only [speciesDerivative, lastEntry_eq_ok.2 hl, hd, hs, ho, hn, hm, ok_bind]
    rfl

def halfReaction : Reaction ℕ Exact :=
  Reaction.elementary false [0] [.measure 0.5] [1] [.count 1] (.measure 1) (.count 0) (.count 0)

theorem halfReaction_loses_power : ∃ e fraction last,
    speciesDerivative [{ Species.named "A" with weight := .measure 1 }] ⟨0, 0, none⟩ halfReaction 0 (.measure 1) =
      .ok (addSlopes (.var "j_temp" * .full (Arithmetic.unit - fraction)) fraction (some e, none) last) ∧
    ¬IsSlope "kf" [(0, .measure 0.5)] 0 e := by
  have hr : PositiveSide halfReaction.reactants halfReaction.reactantNu :=
    ⟨⟨rfl, nodup_singleton 0⟩, fun x hx => by obtain rfl := mem_singleton.1 hx; norm_num⟩
  have hp : PositiveSide halfReaction.products halfReaction.productNu :=
    ⟨⟨rfl, nodup_singleton 1⟩, fun x hx => by obtain rfl := mem_singleton.1 hx; norm_num⟩
  have hl : [{ Species.named "A" with weight := Exact.measure 1 }].getLast? = some _ := rfl
  obtain ⟨-, -, forward, backward, fraction, last, -, he, ⟨hs, hf⟩, rfl⟩ :=
    power_rule hr hp rfl rfl hl one_ne_zero ⟨0, 0, none⟩ 0 0 (.measure 1)
  obtain ⟨e, rfl⟩ := Option.isSome_iff_exists.1 (hs.2 (mem_singleton.2 rfl))
  refine ⟨e, fraction, last, he, fun h => ?_⟩
  have h1 := (hf (.measure 0.5) e (mem_singleton.2 rfl) rfl).2.1 h
  norm_num at h1

end

end Kinetics.Jacobian
