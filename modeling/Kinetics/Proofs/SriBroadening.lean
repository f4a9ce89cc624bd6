import Kinetics.Proofs.FalloffDerivative
/-!
# Broadening by the SRI form

Between its limits a rate is multiplied by `d F^X T^e`. Two writers leave `d` and `T^e` out, both of
them, if `d` is one or `e` is zero. The third one, for the temperature derivative, looks at `e` only.
What they write is one function exactly if `d` is one just when `e` is zero: `sri_broadening`.
-/

open List

namespace Kinetics.Jacobian

open Code

noncomputable section

/-- A falloff reaction with parameters of the SRI form. Without the last two parameters `d` is one
and `e` is zero. -/
structure SriReaction (r : Reaction ℕ Exact) (a b c d e : ℝ) : Prop extends FalloffReaction r where
  troe : r.troe = false
  sri : r.sri = true
  scale : c ≠ 0
  parameters : r.sriParameters = [.measure a, .measure b, .measure c, .measure d, .measure e] ∨
    r.sriParameters = [.measure a, .measure b, .measure c] ∧ d = 1 ∧ e = 0

def sriBase (a b c T : ℝ) : ℝ := a * Real.exp (-b / T) + Real.exp (-T / c)

def tiny : ℝ := ((10 : ℕ) : ℝ) ^ (-300 : ℤ)

def sriPower (P : ℝ) : ℝ := 1 / (1 + Real.logb (10 : ℕ) (max P tiny) * Real.logb (10 : ℕ) (max P tiny))

open Classical in
def writtenScale (d e T : ℝ) : ℝ := if d = 1 ∨ e = 0 then 1 else d * T ^ e

lemma writtenScale_iff {d e : ℝ} : (∀ T, 0 < T → writtenScale d e T = d * T ^ e) ↔ (d = 1 ↔ e = 0) := by
  constructor
  · intro h
    constructor
    · rintro rfl
      have h2 := h (Real.exp 1) (Real.exp_pos 1)
      rw [writtenScale, if_pos (.inl rfl), one_mul, ← Real.exp_mul, one_mul, eq_comm, Real.exp_eq_one_iff] at h2
      exact h2
    · rintro rfl
      have h1 := h 1 one_pos
      rw [writtenScale, if_pos (.inr rfl), Real.one_rpow, mul_one] at h1
      exact h1.symm
  · intro h T _
    by_cases hd : d = 1
    · rw [writtenScale, if_pos (.inl hd), hd, h.1 hd, Real.rpow_zero, one_mul]
    · rw [writtenScale, if_neg (not_or.2 ⟨hd, mt h.2 hd⟩)]

variable {r : Reaction ℕ Exact} {a b c d e x T : ℝ} {σ : Memory}

lemma logPr_factor (σ : Memory) : Factor σ Rate.logPr (Real.logb (10 : ℕ) (max (σ.var "Pr") tiny)) := by
  have ht : (Expr.tiny : Expr Exact).value σ = some tiny := by
    have hp : (10 : ℝ) ^ (-300 - 1 : ℤ) = 10 ^ (-300 : ℤ) * 10⁻¹ := zpow_sub_one₀ (by norm_num) _
    rw [Expr.tiny, (Factor.constant _).value, Decimal.toReal, tiny]
    simp only [Nat.cast_ofNat, Nat.cast_one, hp]
    rw [mul_left_comm, mul_inv_cancel₀ (by norm_num), mul_one]
  exact Factor.log10 (Factor.apply2 rfl (Factor.var "Pr").value ht).value

lemma bounded_measure (n : ℕ) (x : ℝ) : Expr.bounded n (Exact.measure x) = .ok (.number (.bounded n) (.measure x)) := rfl

lemma decay_factor (hx : x ≠ 0) : ∃ f, Rate.decay (Expr.bounded 6) (.measure x) = .ok f ∧
    ∀ σ, Factor σ f (Real.exp (-σ.var "T" / x)) := by
  unfold Rate.decay
  split
  · exact ⟨_, rfl, fun σ => Factor.exp (((Factor.var "T").neg rfl).term.div (Factor.number _ _)).value⟩
  · next h =>
    refine ⟨_, rfl, fun σ => ?_⟩
    have hn : x < 0 := lt_of_le_of_ne (not_lt.1 (by simpa using h)) hx
    have hf := Factor.exp (((Factor.var (σ := σ) "T").term.div (Factor.number (.bounded 6) (Arithmetic.abs (.measure x)))).value)
    rwa [Exact.toReal_abs, Exact.toReal_measure, abs_of_neg hn, div_neg, ← neg_div] at hf

lemma barrier_factor (x : ℝ) : ∃ f, Rate.barrier (Expr.bounded 6) (.measure x) = .ok f ∧
    ∀ σ, Factor σ f (Real.exp (-x / σ.var "T")) := by
  unfold Rate.barrier
  split
  · next h =>
    refine ⟨_, rfl, fun σ => Factor.exp (((Factor.number _ _).neg ?_).term.div (Factor.var "T")).value⟩
    have hp : 0 < x := by simpa using h
    exact Bool.eq_false_iff.2 fun hn => absurd ((Exact.isNegative_iff _).1 hn) hp.not_gt
  · next h =>
    refine ⟨_, rfl, fun σ => ?_⟩
    have hn : x ≤ 0 := not_lt.1 (by simpa using h)
    have hf := Factor.exp (((Factor.number (.bounded 6) (Arithmetic.abs (.measure x))).term.div (Factor.var (σ := σ) "T")).value)
    rwa [Exact.toReal_abs, Exact.toReal_measure, abs_of_nonpos hn] at hf

/-- The factor that two writers share, behind what `before` stands for. -/
lemma sriFactor_term (h : SriReaction r a b c d e) (before : Option (Expr Exact)) :
    ∃ f, Rate.sriFactor before r = .ok f ∧ ∀ σ v, (∀ q ∈ before, Term σ q v) → (before = none → v = 1) →
      Term σ f (v * (sriBase a b c (σ.var "T") ^ σ.var "X" * writtenScale d e (σ.var "T"))) := by
  obtain ⟨fb, hb, hbv⟩ := barrier_factor b
  obtain ⟨fc, hc, hcv⟩ := decay_factor h.scale
  let power : Expr Exact := .pow (.number (.bounded 6) (.measure a) * fb + fc) (.var "X")
  let start : Expr Exact := before.elim power fun q => .binary .times { before := 0 } q power
  have hpow : ∀ σ, Factor σ power (sriBase a b c (σ.var "T") ^ σ.var "X") := fun σ => Factor.pow
    (value_add ((Factor.number _ _).term.mul (hbv σ).term).value (hcv σ).term) (Factor.var "X").value
  have hstart : ∀ σ v, (∀ q ∈ before, Term σ q v) → (before = none → v = 1) →
      Term σ start (v * sriBase a b c (σ.var "T") ^ σ.var "X") := by
    intro σ v hq hv
    cases before with
    | none =>
      rw [hv rfl, one_mul]
      exact (hpow σ).term
    | some q => exact (hq q rfl).times (hpow σ).term
  by_cases hs : d = 1 ∨ e = 0
  · refine ⟨start, ?_, fun σ v hq hv => ?_⟩
    · rcases h.parameters with hp | ⟨hp, -, -⟩ <;> cases before <;>
        simp [Rate.sriFactor, hp, entryAt, bounded_measure, hb, hc, pure_ok, hs, start, power]
    · rw [writtenScale, if_pos hs, mul_one]
      exact hstart σ v hq hv
  · refine ⟨start * .sci 8 (.measure d) * .pow .T (.number (.bounded 6) (.measure e)), ?_, fun σ v hq hv => ?_⟩
    · rcases h.parameters with hp | ⟨-, hd, -⟩
      · cases before <;> simp [Rate.sriFactor, hp, entryAt, bounded_measure, hb, hc, pure_ok, hs, start, power]
      · exact absurd (.inl hd) hs
    · rw [writtenScale, if_neg hs, ← mul_assoc, ← mul_assoc]
      exact ((hstart σ v hq hv).mul (Factor.number _ _).term).mul
        (Factor.pow (Factor.var "T").value (Factor.number _ _).value).term

lemma SriReaction.endsWith (h : SriReaction r a b c d e) (k : ℕ) :
    EndsWith r k fun T P => sriBase a b c T ^ sriPower P * writtenScale d e T * placeBetween r P := by
  obtain ⟨f, hf, hv⟩ := sriFactor_term h none
  refine ⟨[Rate.sriExponent, .set (.cell "pres_mod" k) (Rate.applyLimit r f)], fun k0 kinf h₀ h₁ => ?_, fun σ => ?_⟩
  · simp only [Rate.falloffSteps, h₀, h₁, h.troe, h.sri, hf, ok_bind]
    cases r.collider <;> rfl
  · have hX : (1.0 / .group (1.0 + Rate.logPr * Rate.logPr) : Expr Exact).value σ = some (sriPower (σ.var "Pr")) :=
      (Factor.one.term.div (Factor.group (value_add Factor.one.value
        ((logPr_factor σ).term.mul (logPr_factor σ).term)))).value
    have ht := hv (σ.setVar "X" (sriPower (σ.var "Pr"))) 1 (by simp) fun _ => rfl
    have hl : (Rate.applyLimit r f).value (σ.setVar "X" (sriPower (σ.var "Pr"))) =
        some (sriBase a b c (σ.var "T") ^ sriPower (σ.var "Pr") * writtenScale d e (σ.var "T") *
          placeBetween r (σ.var "Pr")) := by
      have ho := onePlusPr_factor (σ.setVar "X" (sriPower (σ.var "Pr")))
      unfold Rate.applyLimit placeBetween
      rcases h.limits with ⟨⟨a, b, e, rest, hl, -⟩, -⟩ | ⟨hl, a, b, e, rest, hh, -⟩
      · have hp := ((ht.mul (Factor.var "Pr").term).div ho).value
        rw [var_update_var, if_neg (by decide), mul_div_assoc] at hp
        simpa [hl, Rate.Pr] using hp
      · have hp := (ht.div ho).value
        rw [div_eq_mul_one_div] at hp
        simpa [hl, hh] using hp
    exact ⟨_, (congrArg (Option.bind · _) (run_setVar "X" hX)).trans
      (congrArg (Option.bind · _) (run_setCell "pres_mod" k hl)), by simp⟩

lemma modificationEnd_run (h : SriReaction r a b c d e) :
    ∃ f, modificationEnd r = .ok (.assign 2 (.var "pres_mod_temp") .multiply f) ∧ ∀ σ, f.value σ = some
      (writtenQuotient r (σ.var "T") (σ.var "logT") * (sriBase a b c (σ.var "T") ^ σ.var "X" *
        writtenScale d e (σ.var "T")) / (1 + σ.var "Pr")) := by
  obtain ⟨-, -, q, -, hq, hqv⟩ := limitRatio_ok h.toFalloffReaction
  obtain ⟨f, hf, hv⟩ := sriFactor_term h (some q)
  refine ⟨.padded 0 1 f / Rate.onePlusPr, by simp only [modificationEnd, hq, hf, h.troe, h.sri, ok_bind]; rfl, fun σ => ?_⟩
  have ht : Term σ (.padded 0 1 f) _ := hv σ _ (by simpa using hqv σ) (by simp)
  exact (ht.div (onePlusPr_factor σ)).value

/-! ## The derivative by the temperature -/

def baseSlope (a b c T : ℝ) : ℝ := a * b / (T * T) * Real.exp (-b / T) - 1 / c * Real.exp (-T / c)

/-- The relative derivative of the broadening, where `s` is that of the reduced pressure by the relative temperature. -/
def sriSlope (a b c e s T P : ℝ) : ℝ :=
  sriPower P * (baseSlope a b c T / sriBase a b c T - sriPower P * ((2 : ℕ) / Real.log (10 : ℕ)) *
    Real.logb (10 : ℕ) (max P tiny) * s * Real.log (sriBase a b c T) / T) + e / T

lemma hasDerivAt_sriBase (hT : T ≠ 0) : HasDerivAt (sriBase a b c) (baseSlope a b c T) T := by
  have h₁ : HasDerivAt (fun T => Real.exp (-b / T)) (Real.exp (-b / T) * (b / T) / T) T := by
    simpa only [neg_div, SlopeAt] using slopeAt_activation b hT
  have h₂ := ((hasDerivAt_neg T).div_const c).exp
  refine ((h₁.const_mul a).add h₂).congr_deriv ?_
  rw [baseSlope]
  ring

lemma tiny_pos : 0 < tiny := by
  unfold tiny
  positivity

lemma hasDerivAt_sriPower {P : ℝ → ℝ} {s : ℝ} (hP : SlopeAt P s T) (ht : tiny < P T) :
    HasDerivAt (fun T => sriPower (P T)) (-(sriPower (P T) * sriPower (P T) * ((2 : ℕ) / Real.log (10 : ℕ)) *
      Real.logb (10 : ℕ) (max (P T) tiny) * s / T)) T := by
  have hP' : HasDerivAt P (P T * s / T) T := hP
  have hm : HasDerivAt (fun T => max (P T) tiny) (P T * s / T) T :=
    hP'.congr_of_eventuallyEq ((hP'.continuousAt.eventually (lt_mem_nhds ht)).mono fun _ h => max_eq_left h.le)
  have hp : max (P T) tiny ≠ 0 := (tiny_pos.trans_le (le_max_right _ _)).ne'
  have hL : HasDerivAt (fun T => Real.logb (10 : ℕ) (max (P T) tiny)) (s / T / Real.log (10 : ℕ)) T := by
    refine ((hm.log hp).div_const (Real.log (10 : ℕ))).congr_deriv ?_
    rw [max_eq_left ht.le, mul_div_assoc, mul_div_cancel_left₀ _ (tiny_pos.trans ht).ne']
  have hq : 1 + Real.logb (10 : ℕ) (max (P T) tiny) * Real.logb (10 : ℕ) (max (P T) tiny) ≠ 0 :=
    (add_pos_of_pos_of_nonneg one_pos (mul_self_nonneg _)).ne'
  unfold sriPower
  simp only [one_div]
  refine (((hL.fun_mul hL).const_add 1).fun_inv hq).congr_deriv ?_
  field_simp
  ring

lemma hasDerivAt_sri {P : ℝ → ℝ} {s : ℝ} (d e : ℝ) (hT : 0 < T) (hb : 0 < sriBase a b c T) (hP : SlopeAt P s T)
    (ht : tiny < P T) : HasDerivAt (fun T => d * sriBase a b c T ^ sriPower (P T) * T ^ e)
      (d * sriBase a b c T ^ sriPower (P T) * T ^ e * sriSlope a b c e s T (P T)) T := by
  have hpw := ((hasDerivAt_sriBase hT.ne').rpow (hasDerivAt_sriPower hP ht) hb).const_mul d
  refine (hpw.mul (Real.hasDerivAt_rpow_const (.inl hT.ne'))).congr_deriv ?_
  rw [sriSlope, Real.rpow_sub_one hb.ne', Real.rpow_sub_one hT.ne']
  ring

lemma addSriSlope_value (h : SriReaction r a b c d e) (sum : Expr Exact) (beta E : Exact) :
    ∃ f, addSriSlope sum r beta E = .ok f ∧ ∀ σ s, sum.value σ = some s → σ.var "X" = sriPower (σ.var "Pr") →
      f.value σ = some (s + sriSlope a b c e (beta.toReal + E.toReal / σ.var "T" - 1) (σ.var "T") (σ.var "Pr")) := by
  let N : ℝ → Expr Exact := fun x => .number (.bounded 16) (.measure x)
  let base : Expr Exact := N a * .exp (N (-b) / .T) + .exp (.T / N (-c))
  let slope : Expr Exact := .group (.group (.group (N (a * b) / .group (.T * .T)) * .exp (N (-b) / .T) -
      .full (.measure (1 / c)) * .exp (.T / N (-c))) / .group base -
    .var "X" * N ((2 : ℕ) / Real.log (10 : ℕ)) * Rate.logPr * pressureSlope 16 beta E * .log base / .T)
  have hten : overLogTen ⟨20, 1, 0⟩ = .ok (Exact.measure ((2 : ℕ) / Real.log (10 : ℕ))) := by
    have h10 : (Arithmetic.tenths 100 : Exact).toReal = (10 : ℕ) := by
      norm_num [Decimal.toReal]
    have hl := Exact.log_ok (by rw [h10]; norm_num)
    rw [h10] at hl
    have hp : (Exact.measure (Real.log (10 : ℕ))).toReal ≠ 0 := (Real.log_pos (by norm_num)).ne'
    rw [overLogTen, hl, ok_bind, Exact.div_ok hp]
    change Except.ok (Exact.measure (Decimal.toReal ⟨20, 1, 0⟩ / _)) = _
    norm_num [Decimal.toReal]
  have hinv : Arithmetic.inverse (Exact.measure c) = .ok (.measure (1 / c)) := by
    have hz : (Exact.measure c).toReal ≠ 0 := h.scale
    rw [Arithmetic.inverse, Exact.div_ok hz, Exact.toReal_unit]
    rfl
  have hrest : ∀ σ s, sum.value σ = some s → σ.var "X" = sriPower (σ.var "Pr") →
      (sum + .var "X" * slope).value σ = some (s + sriSlope a b c 0 (beta.toReal + E.toReal / σ.var "T" - 1)
        (σ.var "T") (σ.var "Pr")) := by
    intro σ s hs hX
    have hN : ∀ x, Factor σ (N x) x := fun x => Factor.number _ _
    have heb : Factor σ (.exp (N (-b) / .T)) (Real.exp (-b / σ.var "T")) :=
      Factor.exp ((hN (-b)).term.div (Factor.var "T")).value
    have hec : Factor σ (.exp (.T / N (-c))) (Real.exp (-σ.var "T" / c)) := by
      rw [neg_div, ← div_neg]
      exact Factor.exp ((Factor.var "T").term.div (hN (-c))).value
    have hbase : base.value σ = some (sriBase a b c (σ.var "T")) := value_add ((hN a).term.mul heb.term).value hec.term
    have hsq : Factor σ (.group (N (a * b) / .group (.T * .T))) (a * b / (σ.var "T" * σ.var "T")) :=
      Factor.group ((hN _).term.div (Factor.group ((Factor.var "T").term.mul (Factor.var "T").term).value)).value
    have hnum := Factor.group (value_sub (hsq.term.mul heb.term).value ((Factor.full (.measure (1 / c))).term.mul hec.term))
    have hps : Factor σ (pressureSlope 16 beta E) (beta.toReal + E.toReal / σ.var "T" - 1) :=
      Factor.group (value_sub (value_add (Factor.number _ _).value
        (Factor.group ((Factor.full E).term.div (Factor.var "T")).value).term) Factor.one.term)
    have hsl := Factor.group (value_sub (hnum.term.div (Factor.group hbase)).value
      ((((((Factor.var "X").term.mul (hN ((2 : ℕ) / Real.log (10 : ℕ))).term).mul (logPr_factor σ).term).mul hps.term).mul
        (Factor.log hbase).term).div (Factor.var "T")))
    refine (value_add hs ((Factor.var "X").term.mul hsl.term)).trans ?_
    rw [sriSlope, zero_div, add_zero, ← hX]
    rfl
  by_cases he : e = 0
  · subst he
    refine ⟨sum + .var "X" * slope, ?_, hrest⟩
    have hz : Arithmetic.isZero (Exact.measure 0) = true := by simp
    rcases h.parameters with hp | ⟨hp, -, -⟩ <;>
      simp only [addSriSlope, hp, entryAt, getElem?_cons_zero, getElem?_cons_succ, hinv, hten, ok_bind, hz] <;> rfl
  · refine ⟨sum + .var "X" * slope + .group (N e / .T), ?_, fun σ s hs hX => ?_⟩
    · have hz : Arithmetic.isZero (Exact.measure e) = false := by simpa using he
      have hp := h.parameters.resolve_right fun hp => he hp.2.2
      simp only [addSriSlope, hp, entryAt, getElem?_cons_zero, getElem?_cons_succ, hinv, hten, ok_bind, hz]
      rfl
    · have hq := value_add (hrest σ s hs hX) (Factor.group ((Factor.number (.bounded 16) (.measure e)).term.div
        (Factor.var "T")).value).term
      rw [add_assoc, sriSlope, zero_div, add_zero] at hq
      exact hq

/-- The modification and its derivative by a mass fraction have the broadening with the outer factor
as it is written. The derivative by the temperature is that of the full form. The written factor is
the full one for all temperatures exactly if `d` is one just when `e` is zero. -/
theorem sri_broadening (h : SriReaction r a b c d e) :
    (∀ (l : Language) (label : ℤ) (k : ℕ), ∃ items, Emit.modificationItems l label r k = .ok items ∧ ∀ σ, ∃ τ,
      runItems σ items = some τ ∧ ∃ P, P = limitConstant r r.low (σ.var "T") (σ.var "logT") *
          colliderConcentration r (σ.var "m") (σ.row "C") / limitConstant r r.high (σ.var "T") (σ.var "logT") ∧
        τ.row "pres_mod" k = sriBase a b c (σ.var "T") ^ sriPower P * writtenScale d e (σ.var "T") * placeBetween r P) ∧
    (∃ f, modificationEnd r = .ok (.assign 2 (.var "pres_mod_temp") .multiply f) ∧ ∀ σ, f.value σ = some
      (writtenQuotient r (σ.var "T") (σ.var "logT") * (sriBase a b c (σ.var "T") ^ σ.var "X" *
        writtenScale d e (σ.var "T")) / (1 + σ.var "Pr"))) ∧
    (∀ sum beta E, ∃ f, addSriSlope sum r beta E = .ok f ∧ ∀ (σ : Memory) (s : ℝ) (P : ℝ → ℝ), sum.value σ = some s →
      σ.var "Pr" = P (σ.var "T") → σ.var "X" = sriPower (σ.var "Pr") → 0 < σ.var "T" → 0 < sriBase a b c (σ.var "T") →
      tiny < P (σ.var "T") → SlopeAt P (beta.toReal + E.toReal / σ.var "T" - 1) (σ.var "T") →
      ∃ v, f.value σ = some (s + v) ∧ HasDerivAt (fun T => d * sriBase a b c T ^ sriPower (P T) * T ^ e)
        (d * sriBase a b c (σ.var "T") ^ sriPower (P (σ.var "T")) * σ.var "T" ^ e * v) (σ.var "T")) ∧
    ((∀ T, 0 < T → writtenScale d e T = d * T ^ e) ↔ (d = 1 ↔ e = 0)) := by
  refine ⟨fun l label k => ?_, modificationEnd_run h, fun sum beta E => ?_, writtenScale_iff⟩
  · obtain ⟨items, hi, hr⟩ := modificationItems_falloff h.toFalloffReaction (h.endsWith k) l label
    refine ⟨items, hi, fun σ => ?_⟩
    obtain ⟨τ, hτ, hm⟩ := hr σ
    exact ⟨τ, hτ, _, rfl, hm⟩
  · obtain ⟨f, hf, hv⟩ := addSriSlope_value h sum beta E
    refine ⟨f, hf, fun σ s P hs hP hX hT hb ht hsl => ⟨_, hv σ s hs hX, ?_⟩⟩
    rw [hP]
    exact hasDerivAt_sri d e hT hb hsl ht

def doubledFalloff : Reaction ℕ Exact :=
  { Reaction.elementary false [0] [.count 1] [1] [.count 1] (.measure 1) (.count 0) (.count 0) with
    falloff := true
    low := [.measure 1, .count 0, .count 0]
    sri := true
    sriParameters := [.measure 1, .measure 1, .measure 1, .measure 2.0, .measure 0] }

/-- A doubled modification is written as a single one. -/
theorem doubledFalloff_written : (∃ items, Emit.modificationItems .c 0 doubledFalloff 0 = .ok items) ∧
    ¬∀ T, 0 < T → writtenScale 2.0 0 T = 2.0 * T ^ (0 : ℝ) := by
  have h : SriReaction doubledFalloff 1 1 1 2.0 0 :=
    ⟨⟨rfl, one_ne_zero, .inl ⟨⟨_, _, _, [], rfl, one_ne_zero⟩, rfl⟩⟩, rfl, rfl, one_ne_zero, .inl rfl⟩
  obtain ⟨hm, -, -, hiff⟩ := sri_broadening h
  obtain ⟨items, hi, -⟩ := hm .c 0 0
  refine ⟨⟨items, hi⟩, fun hw => ?_⟩
  have h2 := (hiff.1 hw).2 rfl
  norm_num at h2

end

end Kinetics.Jacobian
