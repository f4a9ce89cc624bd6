import Kinetics.Proofs.Meaning
import Kinetics.Proofs.Outcome
import Kinetics.Rate.Chebyshev
/-!
# Chebyshev rate constants

The emitted statements keep two consecutive Chebyshev polynomials in two work variables and
overwrite the older one in turn (`recurrence_leads`). So the sums over pressure
(`pressureSums_leads`) and the sum over temperature (`temperatureTail_leads`) are those of the
polynomials, and the rate constant is ten to the double sum (`chebyshev_double_sum`).
-/

open List

namespace Kinetics.Rate

open Code

noncomputable section

/-- The Chebyshev polynomial of the first kind of degree `n` at `x`. -/
def chebyshevAt (n : ℕ) (x : ℝ) : ℝ := (Polynomial.Chebyshev.T ℝ n).eval x

@[simp] lemma chebyshevAt_zero (x : ℝ) : chebyshevAt 0 x = 1 := by simp [chebyshevAt]

@[simp] lemma chebyshevAt_one (x : ℝ) : chebyshevAt 1 x = x := by simp [chebyshevAt]

lemma chebyshevAt_add_two (n : ℕ) (x : ℝ) :
    chebyshevAt (n + 2) x = 2 * x * chebyshevAt (n + 1) x - chebyshevAt n x := by
  simp [chebyshevAt, Polynomial.Chebyshev.T_add_two]

/-! ## What the variables hold -/

variable {e : Expr Exact}

section Stages
variable {P Q R : Memory → Prop} {s : Step Exact} {steps more : List (Step Exact)}

/-- Statements run from every memory with `P` and lead to one with `Q`. -/
def Leads (P : Memory → Prop) (steps : List (Step Exact)) (Q : Memory → Prop) : Prop :=
  ∀ σ, P σ → ∃ τ, runSteps σ steps = some τ ∧ Q τ

lemma leads_nil : Leads P [] P := fun σ hσ => ⟨σ, rfl, hσ⟩

lemma Leads.append (h : Leads P steps Q) (h' : Leads Q more R) : Leads P (steps ++ more) R := by
  intro σ hσ
  obtain ⟨τ, hτ, hQ⟩ := h σ hσ
  obtain ⟨ρ, hρ, hR⟩ := h' τ hQ
  exact ⟨ρ, by rw [runSteps_append, hτ, Option.bind_some, hρ], hR⟩

variable {v : Memory → ℝ} {form : Form}

lemma leads_assign {indent : ℕ} {target e : Expr Exact} {p : Place}
    (ht : target.location = some p) (he : ∀ σ, P σ → e.value σ = some (v σ))
    (h : ∀ σ, P σ → Q (Function.update σ p (form.update (σ p) (v σ)))) : Leads P [.assign indent target form e] Q :=
  fun σ hσ => ⟨_, by rw [runSteps, run_assign indent form ht (he σ hσ)]; rfl, h σ hσ⟩

lemma leads_setVar {name : String} (he : ∀ σ, P σ → e.value σ = some (v σ))
    (h : ∀ σ, P σ → Q (σ.setVar name (v σ))) : Leads P [.setVar name e] Q :=
  leads_assign rfl he h

def workName (second : Bool) : String := if second then "cheb_temp_1" else "cheb_temp_0"

/-- The rate constant, the reduced temperature and pressure, and the first `m` partial sums. -/
structure Held (m : ℕ) (c x y : ℝ) (d : ℕ → ℝ) (σ : Memory) : Prop where
  constant : σ.var "kf" = c
  temperature : σ.var "Tred" = x
  pressure : σ.var "Pred" = y
  sums : ∀ i < m, σ.row "dot_prod" i = d i

/-- Moreover the work variables hold the polynomials of degrees `n` and `n + 1` at `z`; `second` names the first. -/
structure Stage (m : ℕ) (c x y : ℝ) (d : ℕ → ℝ) (z : ℝ) (n : ℕ) (second : Bool) (σ : Memory) : Prop extends
    Held m c x y d σ where
  older : σ.var (workName second) = chebyshevAt n z
  newer : σ.var (workName !second) = chebyshevAt (n + 1) z

variable {m n : ℕ} {c x y z : ℝ} {d : ℕ → ℝ} {second : Bool} {name : String} {σ : Memory}

lemma Held.update_work (h : Held m c x y d σ) (second : Bool) (v : ℝ) :
    Held m c x y d (Function.update σ (.cell (workName second) none) v) := by
  cases second <;> exact ⟨by simpa [workName] using h.constant, by simpa [workName] using h.temperature,
    by simpa [workName] using h.pressure, fun i hi => by simpa using h.sums i hi⟩

lemma Stage.update_constant (h : Stage m c x y d z n second σ) (v : ℝ) :
    Stage m v x y d z n second (σ.setVar "kf" v) := by
  have hk : ∀ second, Memory.var (σ.setVar "kf" v) (workName second) =
      σ.var (workName second) := fun second => by cases second <;> simp [workName]
  exact ⟨⟨by simp, by simpa using h.temperature, by simpa using h.pressure, fun i hi => by simpa using h.sums i hi⟩,
    (hk _).trans h.older, (hk _).trans h.newer⟩

lemma Factor.numeral (k : ℕ) : Factor σ (.constant (Decimal.whole k)) k := by
  simpa [Decimal.whole, Decimal.toReal] using Factor.constant (Decimal.whole k)

lemma restart_leads (hz : ∀ σ, Held m c x y d σ → σ.var name = z) :
    Leads (Held m c x y d) [.set (workVariable false) 1, .set (workVariable true) (.var name)]
      (Stage m c x y d z 0 false) := by
  have ho : ∀ σ, (1 : Expr Exact).value σ = some 1 := fun σ => by exact_mod_cast (Factor.numeral 1).value
  have hf : Leads (Held m c x y d) [.setVar (workName false) 1]
      fun τ => Held m c x y d τ ∧ τ.var (workName false) = 1 :=
    leads_setVar (fun σ _ => ho σ) fun σ hσ => ⟨hσ.update_work _ _, by simp⟩
  refine hf.append (leads_setVar (fun σ _ => (Factor.var name).value) fun σ hσ => ?_)
  refine ⟨hσ.1.update_work true _, ?_, ?_⟩
  · simpa [workName] using hσ.2
  · simpa [workName] using hz σ hσ.1

/-- The recurrence overwrites the older polynomial by the next one. -/
lemma recurrence_leads (hz : ∀ σ, Held m c x y d σ → σ.var name = z) :
    Leads (Stage m c x y d z n second) [recurrence 2 (.var name) second] (Stage m c x y d z (n + 1) !second) := by
  refine leads_setVar (v := fun _ => chebyshevAt (n + 2) z) (fun σ hσ => ?_) fun σ hσ => ?_
  · have ht : Factor σ 2 2 := by exact_mod_cast Factor.numeral 2
    have hp := ((ht.term.mul (Factor.var name).term).mul (Factor.var (workName !second)).term).value
    rw [hz σ hσ.toHeld, hσ.newer] at hp
    rw [chebyshevAt_add_two, ← hσ.older]
    exact value_sub hp (Factor.var _).term
  · refine ⟨hσ.update_work second _, ?_, ?_⟩
    · have hn := hσ.newer
      cases second <;> simpa [workName] using hn
    · cases second <;> simp [workName]

lemma sums_leads {e : ℕ → Expr Exact} {v : ℕ → ℝ}
    (hv : ∀ d σ, Stage m c x y d z n second σ → ∀ i, (e i).value σ = some (v i)) :
    Leads (Stage m c x y d z n second) ((List.range m).map fun i => .assign 2 (partialSum i) form (e i))
      (Stage m c x y (fun i => form.update (d i) (v i)) z n second) := by
  -- the sums below `k` have their new values after the first `k` assignments
  have hp : ∀ k ≤ m, Leads (Stage m c x y d z n second)
      ((List.range k).map fun i => .assign 2 (partialSum i) form (e i))
      (Stage m c x y (fun i => if i < k then form.update (d i) (v i) else d i) z n second) := by
    intro k hk
    induction k with
    | zero => simpa using leads_nil
    | succ k ih =>
      rw [range_succ, map_append]
      refine (ih (by omega)).append (leads_assign rfl (fun σ hσ => hv _ σ hσ k) fun σ hσ => ?_)
      have hsm : σ.row "dot_prod" k = d k := by simpa using hσ.sums k hk
      refine ⟨⟨?_, ?_, ?_, fun i hi => ?_⟩, ?_, ?_⟩
      · simpa using hσ.constant
      · simpa using hσ.temperature
      · simpa using hσ.pressure
      · obtain rfl | hne := eq_or_ne i k
        · simp [← hsm]
        · have hlt : i < k + 1 ↔ i < k := by omega
          simpa [hne, hlt] using hσ.sums i hi
      · simpa using hσ.older
      · simpa using hσ.newer
  refine fun σ hσ => ?_
  obtain ⟨τ, hτ, hs⟩ := hp m le_rfl σ hσ
  exact ⟨τ, hτ, ⟨hs.constant, hs.temperature, hs.pressure, fun i hi => by simpa [hi] using hs.sums i hi⟩,
    hs.older, hs.newer⟩

end Stages

/-! ## The double sum -/

section Sums
variable {m n k : ℕ} {c x y : ℝ} {d : ℕ → ℝ} {second : Bool} {a : ℕ → ℕ → Exact}
  {coefficient : ℕ → ℕ → Except Fault Exact}

/-- The sum of the first `n` terms of a row at a reduced pressure. -/
def rowSum (a : ℕ → ℕ → Exact) (y : ℝ) (n i : ℕ) : ℝ := ∑ j ∈ Finset.range n, (a i j).toReal * chebyshevAt j y

lemma mapM_range {f : ℕ → Except Fault (Step Exact)} {g : ℕ → Step Exact} (h : ∀ i < m, f i = .ok (g i)) :
    (List.range m).mapM f = .ok ((List.range m).map g) :=
  mapM_eq_ok_map fun i hi => h i (mem_range.1 hi)

lemma rowSum_succ (n i : ℕ) : rowSum a y (n + 1) i = rowSum a y n i + (a i n).toReal * chebyshevAt n y :=
  Finset.sum_range_succ ..

lemma pressureTail_leads (places : ℕ) (second : Bool) (ha : ∀ i < m, ∀ j < n + 2 + k, coefficient i j = .ok (a i j)) :
    ∃ steps, pressureTail places coefficient (List.range m) second (List.range' (n + 2) k) = .ok steps ∧
      ∀ c x y, Leads (Stage m c x y (rowSum a y (n + 2)) y n second) steps (Held m c x y (rowSum a y (n + 2 + k))) := by
  induction k generalizing n second with
  | zero => exact ⟨[], rfl, fun c x y σ hσ => ⟨σ, rfl, hσ.toHeld⟩⟩
  | succ k ih =>
    obtain ⟨rest, hr, hl⟩ := ih (n := n + 1) (!second) fun i hi j hj => ha i hi j (by omega)
    have hm : (List.range m).mapM (fun i => do
        return Step.assign 2 (partialSum i) .add (Expr.sci places (← coefficient i (n + 2)) * workVariable second)) =
        .ok ((List.range m).map fun i =>
          .assign 2 (partialSum i) .add (Expr.sci places (a i (n + 2)) * workVariable second)) :=
      mapM_range fun i hi => by rw [ha i hi _ (by omega)]; rfl
    refine ⟨_, by rw [List.range'_succ, pressureTail, hm, ok_bind, hr]; rfl, fun c x y => ?_⟩
    have hrw : Leads (Stage m c x y (rowSum a y (n + 2)) y (n + 1) !second)
        ((List.range m).map fun i => .assign 2 (partialSum i) .add (.sci places (a i (n + 2)) * workVariable second))
        (Stage m c x y (rowSum a y (n + 3)) y (n + 1) !second) := by
      rw [show rowSum a y (n + 3) = fun i => Form.add.update (rowSum a y (n + 2) i) _ from
        funext fun i => rowSum_succ (n + 2) i]
      refine sums_leads fun d σ hσ i => ?_
      have hn := hσ.newer
      rw [Bool.not_not] at hn
      exact hn ▸ ((Factor.number _ _).term.mul (Factor.var (workName second)).term).value
    have hnx := (recurrence_leads fun σ hσ => hσ.pressure).append (hrw.append (hl c x y))
    rwa [show n + 1 + 2 + k = n + 2 + (k + 1) by omega] at hnx

lemma drop_range_two (k : ℕ) : (List.range (k + 2)).drop 2 = List.range' (0 + 2) k := by
  rw [range_eq_range', drop_range']
  simp

lemma pressureSums_leads (places : ℕ) (ha : ∀ i < m, ∀ j < k + 2, coefficient i j = .ok (a i j)) :
    ∃ steps, pressureSums places coefficient (List.range m) (k + 2) = .ok steps ∧
      ∀ c x y d, Leads (Held m c x y d) steps (Held m c x y (rowSum a y (k + 2))) := by
  obtain ⟨rest, hr, hl⟩ := pressureTail_leads (n := 0) (k := k) places false fun i hi j hj => ha i hi j (by omega)
  have hm : (List.range m).mapM (fun i => do
      return Step.assign 2 (partialSum i) .setTight
        (Expr.sci places (← coefficient i 0) + Expr.var "Pred" * Expr.sci places (← coefficient i 1))) =
      .ok ((List.range m).map fun i =>
        .assign 2 (partialSum i) .setTight (Expr.sci places (a i 0) + Expr.var "Pred" * Expr.sci places (a i 1))) :=
    mapM_range fun i hi => by rw [ha i hi 0 (by omega), ok_bind, ha i hi 1 (by omega)]; rfl
  refine ⟨_, by rw [pressureSums, hm, ok_bind, drop_range_two, hr]; rfl, fun c x y d => ?_⟩
  rw [Nat.add_comm (0 + 2) k] at hl
  refine ((restart_leads fun σ hσ => hσ.pressure).append ?_).append (hl c x y)
  rw [show rowSum a y (0 + 2) = fun i => Form.setTight.update (d i) ((a i 0).toReal + y * (a i 1).toReal) by
    funext i
    simp [rowSum, Finset.sum_range_succ, Form.update, mul_comm]]
  refine sums_leads fun d σ hσ i => ?_
  exact hσ.pressure ▸ value_add (Factor.number _ _).value ((Factor.var "Pred").term.mul (Factor.number _ _).term)

def columnSum (d : ℕ → ℝ) (x : ℝ) (n : ℕ) : ℝ := ∑ i ∈ Finset.range n, d i * chebyshevAt i x

lemma temperatureTail_leads (second : Bool) (hm : n + 2 + k ≤ m) :
    Leads (Stage m (columnSum d x (n + 2)) x y d x n second) (temperatureTail 2 second (List.range' (n + 2) k))
      (Held m (columnSum d x (n + 2 + k)) x y d) := by
  induction k generalizing n second with
  | zero => exact fun σ hσ => ⟨σ, rfl, hσ.toHeld⟩
  | succ k ih =>
    have ha : Leads (Stage m (columnSum d x (n + 2)) x y d x (n + 1) !second)
        [.assign 2 (.var "kf") .add (partialSum (n + 2) * workVariable second)]
        (Stage m (columnSum d x (n + 3)) x y d x (n + 1) !second) := by
      refine leads_assign (v := fun _ => d (n + 2) * chebyshevAt (n + 2) x) rfl (fun σ hσ => ?_) fun σ hσ => ?_
      · rw [← hσ.sums (n + 2) (by omega), ← hσ.newer, Bool.not_not]
        exact ((Factor.cell "dot_prod" (n + 2)).term.mul (Factor.var (workName second)).term).value
      · rw [show columnSum d x (n + 3) = Form.add.update (columnSum d x (n + 2)) _ from Finset.sum_range_succ ..,
          ← hσ.constant]
        exact hσ.update_constant _
    have hn := (recurrence_leads fun σ hσ => hσ.temperature).append (ha.append (ih (!second) (by omega)))
    rwa [show n + 1 + 2 + k = n + 2 + (k + 1) by omega] at hn

lemma temperatureSum_leads :
    Leads (Held (k + 2) c x y d) ([.set (workVariable false) 1, .set (workVariable true) (.var "Tred"),
        .setVar "kf" (partialSum 0 + .var "Tred" * partialSum 1)] ++ temperatureTail 2 false (List.range' (0 + 2) k))
      (Held (k + 2) (columnSum d x (k + 2)) x y d) := by
  have hf : Leads (Stage (k + 2) c x y d x 0 false) [.setVar "kf" (partialSum 0 + .var "Tred" * partialSum 1)]
      (Stage (k + 2) (columnSum d x (0 + 2)) x y d x 0 false) := by
    refine leads_setVar (fun σ hσ => ?_) fun σ hσ => hσ.update_constant _
    have hs : columnSum d x (0 + 2) = σ.row "dot_prod" 0 + σ.var "Tred" * σ.row "dot_prod" 1 := by
      rw [hσ.sums 0 (by omega), hσ.sums 1 (by omega), hσ.temperature]
      simp [columnSum, Finset.sum_range_succ, mul_comm]
    rw [hs]
    exact value_add (Factor.cell "dot_prod" 0).value ((Factor.var "Tred").term.mul (Factor.cell "dot_prod" 1).term)
  have ht := temperatureTail_leads (y := y) (d := d) (x := x) false (Nat.add_comm 2 k).le
  rw [Nat.add_comm (0 + 2) k] at ht
  exact ((restart_leads fun σ hσ => hσ.temperature).append hf).append ht

end Sums

lemma reduced_run (temperatures pressures : Exact × Exact) (σ : Memory) :
    ∃ τ, runSteps σ [reducedTemperature 8 temperatures, reducedPressure 8 pressures] = some τ := by
  have ht : ∀ σ, Factor σ (2.0 : Expr Exact) (Decimal.toReal ⟨20, 1, 0⟩) := fun σ => Factor.constant _
  have hq : ∀ {σ v} {e : Expr Exact} (s : Exact × Exact), e.value σ = some v →
      ((.group (e - .sci 8 s.1) / .sci 8 s.2 : Expr Exact).value σ).isSome := fun s he => by
    have hd := value_sub he (Factor.number (.scientific 8) s.1).term
    exact Option.isSome_of_eq_some ((Factor.group hd).term.div (Factor.number _ s.2)).value
  obtain ⟨v, hv⟩ := Option.isSome_iff_exists.1
    (hq temperatures (Factor.group ((ht σ).term.div (Factor.var "T")).value).value)
  obtain ⟨w, hw⟩ := Option.isSome_iff_exists.1 (hq pressures
    ((ht (σ.setVar "Tred" v)).term.mul (Factor.log10 (Factor.var "pres").value).term).value)
  have hr : (reducedTemperature 8 temperatures).run σ = _ := run_setVar "Tred" hv
  have hr' : (reducedPressure 8 pressures).run _ = _ := run_setVar "Pred" hw
  exact ⟨_, by rw [runSteps, hr, Option.bind_some, runSteps, hr']; rfl⟩

/-- The emitted statements leave ten to the double Chebyshev sum in the rate constant, whatever the work variables and
the partial sums held before. Reduced temperature and pressure are those of before if they are defined. -/
theorem chebyshev_double_sum {ι : Type} (r : Reaction ι Exact) {m n : ℕ} (a : ℕ → ℕ → Exact)
    (hm : 2 ≤ m) (hn : 2 ≤ n) (hterms : r.temperatureTerms = m ∧ r.pressureTerms = n)
    (ha : r.chebyshevCoefficients = some ((List.range m).map fun i => (List.range n).map (a i)))
    {temperatures pressures : Exact × Exact} (htemperatures : temperatureScale r = .ok temperatures)
    (hpressures : pressureScale r = .ok pressures) (defined : Bool) :
    ∃ steps, chebyshevRate r defined = .ok steps ∧ ∀ σ, ∃ τ, runSteps σ steps = some τ ∧
      (defined = true → τ.var "Tred" = σ.var "Tred" ∧ τ.var "Pred" = σ.var "Pred") ∧
      τ.var "kf" = 10 ^ ∑ i ∈ Finset.range m, ∑ j ∈ Finset.range n,
        (a i j).toReal * chebyshevAt i (τ.var "Tred") * chebyshevAt j (τ.var "Pred") := by
  obtain ⟨m, rfl⟩ := Nat.exists_eq_add_of_le' hm
  obtain ⟨n, rfl⟩ := Nat.exists_eq_add_of_le' hn
  have hcoefficient : ∀ i < m + 2, ∀ j < n + 2, chebyshevCoefficient r i j = .ok (a i j) := by
    intro i hi j hj
    simp [chebyshevCoefficient, ha, bind_eq_ok, hi, hj]
  obtain ⟨sums, hsums, hleads⟩ := pressureSums_leads 8 hcoefficient
  have hrate : chebyshevRate r defined = .ok ((if defined then [] else
      [reducedTemperature 8 temperatures, reducedPressure 8 pressures]) ++ sums ++
      [.set (workVariable false) 1, .set (workVariable true) (.var "Tred"),
        .setVar "kf" (partialSum 0 + .var "Tred" * partialSum 1)] ++
      temperatureTail 2 false (List.range' (0 + 2) m) ++ [.setVar "kf" (.tenPower (.var "kf"))]) := by
    simp only [chebyshevRate, htemperatures, hpressures, ok_bind, hterms.1, hterms.2, Int.toNat_natCast, hsums,
      drop_range_two]
    rfl
  refine ⟨_, hrate, fun σ => ?_⟩
  have hstart : ∃ ρ, runSteps σ (if defined then [] else
      [reducedTemperature 8 temperatures, reducedPressure 8 pressures]) = some ρ ∧ (defined = true → ρ = σ) := by
    cases defined with
    | false => exact (reduced_run temperatures pressures σ).imp fun ρ hρ => ⟨hρ, fun h => by cases h⟩
    | true => exact ⟨σ, rfl, fun _ => rfl⟩
  obtain ⟨ρ, hρ, hkept⟩ := hstart
  obtain ⟨ω, hω, hsum⟩ := ((hleads _ _ _ _).append temperatureSum_leads) ρ ⟨rfl, rfl, rfl, fun _ _ => rfl⟩
  have hpower : (Expr.tenPower (.var "kf") : Expr Exact).value ω = some (10 ^ ω.var "kf") :=
    Factor.value fun _ _ _ => by simp [Expr.read, Expr.var, Scan.start, Scan.operand, Scan.finish]
  refine ⟨Function.update ω (.cell "kf" none) (10 ^ ω.var "kf"), ?_, fun hdefined => ?_, ?_⟩
  · rw [append_assoc _ [_, _, _], append_assoc _ sums, runSteps_append, runSteps_append, hρ,
      Option.bind_some, hω, Option.bind_some, runSteps, run_setVar "kf" hpower]
    rfl
  · rw [← hkept hdefined]
    exact ⟨by simpa using hsum.temperature, by simpa using hsum.pressure⟩
  · simp only [var_update_var, if_true, hsum.constant]
    simp only [String.reduceEq, if_false, hsum.temperature, hsum.pressure, columnSum, rowSum,
      Finset.sum_mul, mul_right_comm]

/-- A rate constant with three terms in temperature and two in pressure. -/
def threeByTwo : Reaction ℕ Exact := { (default : Reaction ℕ Exact) with
    temperatureTerms := 3, pressureTerms := 2
    temperatureLimits := [.count 300, .count 2500], pressureLimits := [.count 101325, .count 10132500]
    chebyshevCoefficients := some [[.count 0, .count (-1)], [.count 3, .count 2], [.count 6, .count 5]] }

theorem chebyshev_double_sum_three_by_two :
    ∃ steps, chebyshevRate threeByTwo true = .ok steps ∧ ∀ σ, ∃ τ, runSteps σ steps = some τ ∧ τ.var "kf" =
      10 ^ (-σ.var "Pred" + (3 + 2 * σ.var "Pred") * σ.var "Tred" +
        (6 + 5 * σ.var "Pred") * (2 * σ.var "Tred" ^ 2 - 1)) := by
  have hlog10 : ∀ n : ℤ, 0 < n → Arithmetic.log10 (.count n : Exact) = .ok (.measure (Real.logb 10 n)) :=
    fun n hn => if_neg (Int.cast_pos.2 hn).not_ge
  have htemperatures : ∃ scale, temperatureScale threeByTwo = .ok scale :=
    ⟨_, by simp [temperatureScale, threeByTwo, entryAt, Arithmetic.inverse, Exact.div_ok]; rfl⟩
  have hpressures : ∃ scale, pressureScale threeByTwo = .ok scale :=
    ⟨_, by simp [pressureScale, threeByTwo, entryAt, hlog10]; rfl⟩
  obtain ⟨temperatures, ht⟩ := htemperatures
  obtain ⟨pressures, hp⟩ := hpressures
  obtain ⟨steps, hsteps, hruns⟩ := chebyshev_double_sum threeByTwo (fun i j => .count (3 * i - j)) (m := 3) (n := 2)
    (by decide) (by decide) ⟨rfl, rfl⟩ rfl ht hp true
  refine ⟨steps, hsteps, fun σ => ?_⟩
  obtain ⟨τ, hτ, hkept, hkf⟩ := hruns σ
  obtain ⟨hx, hy⟩ := hkept rfl
  refine ⟨τ, hτ, hkf.trans (congrArg _ ?_)⟩
  rw [hx, hy]
  simp [Finset.sum_range_succ, chebyshevAt_add_two 0]
  ring

end

end Kinetics.Rate
