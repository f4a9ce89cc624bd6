import Kinetics.Rate.Chebyshev
import Kinetics.Rate.Equilibrium
import Kinetics.Rate.Falloff
import Kinetics.Rate.Plog
import Kinetics.Proofs.Triples
import Kinetics.Proofs.Vocabulary
/-!
# What the code of a rate holds

The code of rate constants, equilibrium constants, collider concentrations and broadening factors
`Fits` every grammar that has its work variables.
-/

open List

set_option mvcgen.warning false

namespace Kinetics.Code

open Std.Do

/-! ## Grammars with the state -/

@[simp, reducible] def stateNames : List String :=
  ["T", "logT", "pres", "conc", "fwd_rates", "rev_rates", "pres_mod", "dBdT", "mw_avg", "rho_inv"]

/-- The variables and arrays that the code of a reaction computes in. -/
@[simp, reducible] def scratchNames : List String :=
  ["m", "conc_temp", "kf", "kf2", "kr", "Kc", "Pr", "Fcent", "A", "B", "lnF_AB", "X", "Tred", "Pred", "cheb_temp_0",
    "cheb_temp_1", "dot_prod", "j_temp", "pres_mod_temp"]

/-- Code may read the state and compute in the work variables, and operands may be missing in it. -/
class Grammar.Stateful (G : Grammar) : Prop where
  flawed : G.flawed
  loose : G.loose
  reads : ∀ name ∈ stateNames, G.names name ∨ G.sources name
  sets : ∀ name ∈ scratchNames, G.names name

attribute [simp] Grammar.Stateful.flawed Grammar.Stateful.loose

section Fits
variable {α : Type} {G : Grammar} {a b : Expr α} {x : α}

variable {name : String}

@[simp] lemma state_read [h : G.Stateful] (hn : name ∈ stateNames) : G.names name ∨ G.sources name := h.reads name hn

@[simp] lemma scratch_set [h : G.Stateful] (hn : name ∈ scratchNames) : G.names name := h.sets name hn

@[simp] lemma fits_plain : (Expr.plain x).Fits G := trivial

@[simp] lemma fits_full : (Expr.full x).Fits G := trivial

@[simp] lemma fits_sci (places : ℕ) : (Expr.sci places x).Fits G := trivial

@[simp] lemma fits_hole : (Expr.hole : Expr α).Fits G ↔ G.flawed := Iff.rfl

@[simp] lemma fits_literal (m : ℕ) (negative : Bool) (e : ℕ) :
    (OfScientific.ofScientific m negative e : Expr α).Fits G := trivial

@[simp] lemma fits_numeral (n : ℕ) [n.AtLeastTwo] : (OfNat.ofNat n : Expr α).Fits G := trivial

@[simp] lemma fits_one : (1 : Expr α).Fits G := trivial

@[simp] lemma fits_zero : (0 : Expr α).Fits G := trivial

@[simp] lemma fits_var (name : String) : (Expr.var name : Expr α).Fits G ↔ G.names name ∨ G.sources name := Iff.rfl

@[simp] lemma fits_cell (array : String) (i : ℤ) :
    (Expr.cell array i : Expr α).Fits G ↔ G.names array ∨ G.sources array := Iff.rfl

@[simp] lemma settable_var (name : String) : (Expr.var name : Expr α).Settable G ↔ G.names name := Iff.rfl

@[simp] lemma settable_cell (array : String) (i : ℤ) : (Expr.cell array i : Expr α).Settable G ↔ G.names array :=
  Iff.rfl

@[simp] lemma fits_T [G.Stateful] : (Expr.T : Expr α).Fits G := state_read (by simp)

@[simp] lemma fits_logT [G.Stateful] : (Expr.logT : Expr α).Fits G := state_read (by simp)

@[simp] lemma fits_pres [G.Stateful] : (Expr.pres : Expr α).Fits G := state_read (by simp)

@[simp] lemma fits_binary (op : Operator) (gap : Gap) : (Expr.binary op gap a b).Fits G ↔
    (a.Fits G ∨ G.loose ∧ a = .hole ∧ (op = .plus ∨ op = .minus)) ∧
      (G.loose ∨ op ≠ .minus ∨ gap = {}) ∧ b.Fits G := Iff.rfl

@[simp] lemma fits_add : (a + b).Fits G ↔ (a.Fits G ∨ G.loose ∧ a = .hole) ∧ b.Fits G :=
  (fits_binary .plus {}).trans (by simp)

@[simp] lemma fits_sub : (a - b).Fits G ↔ (a.Fits G ∨ G.loose ∧ a = .hole) ∧ b.Fits G :=
  (fits_binary .minus {}).trans (by simp)

@[simp] lemma fits_mul : (a * b).Fits G ↔ a.Fits G ∧ b.Fits G := (fits_binary .times {}).trans (by simp)

@[simp] lemma fits_div : (a / b).Fits G ↔ a.Fits G ∧ b.Fits G := (fits_binary .over {}).trans (by simp)

@[simp] lemma firm_var (name : String) : (Expr.var name : Expr α).firm := trivial

@[simp] lemma firm_group : (Expr.group a).firm := trivial

@[simp] lemma fits_neg : (-a).Fits G ↔ (G.loose ∨ a.firm) ∧ a.Fits G := Iff.rfl

@[simp] lemma fits_group : (Expr.group a).Fits G ↔ a.Fits G := Iff.rfl

@[simp] lemma fits_opened : (Expr.opened a).Fits G ↔ G.flawed ∧ a.Fits G := Iff.rfl

@[simp] lemma fits_padded (before after : ℕ) : (Expr.padded before after a).Fits G ↔ a.Fits G := Iff.rfl

@[simp] lemma fits_exp : (Expr.exp a).Fits G ↔ a.Fits G := and_iff_right (by decide)

@[simp] lemma fits_log : (Expr.log a).Fits G ↔ a.Fits G := and_iff_right (by decide)

@[simp] lemma fits_log10 : (Expr.log10 a).Fits G ↔ a.Fits G := and_iff_right (by decide)

@[simp] lemma fits_tenPower : (Expr.tenPower a).Fits G ↔ a.Fits G := Iff.rfl

@[simp] lemma fits_pow : (Expr.pow a b).Fits G ↔ a.Fits G ∧ b.Fits G := and_iff_right (by decide)

@[simp] lemma fits_atLeastTiny : (Expr.atLeastTiny a).Fits G ↔ a.Fits G :=
  (and_iff_right (by decide)).trans (and_iff_left trivial)

@[simp] lemma fits_assign (indent : ℕ) (form : Form) :
    (Step.assign indent a form b).Fits G ↔ a.Settable G ∧ b.Fits G := Iff.rfl

@[simp] lemma fits_set : (Step.set a b).Fits G ↔ a.Settable G ∧ b.Fits G := Iff.rfl

@[simp] lemma fits_setVar (name : String) : (Step.setVar name b).Fits G ↔ G.names name ∧ b.Fits G := Iff.rfl

@[simp] lemma fits_blank : (Step.blank : Step α).Fits G := trivial

@[simp] lemma fits_remark (text : String) : (Step.remark text : Step α).Fits G ↔ '\n' ∉ text.toList ∨ G.flawed :=
  Iff.rfl

@[simp] lemma fits_call (indent : ℕ) (f : String) (spaced : Bool) (arguments : List (Expr α)) :
    (Step.call indent f spaced arguments).Fits G ↔ G.calls ∧ G.names f ∧ arguments ≠ [] ∧
      ∀ e ∈ arguments, e.Fits G ∨ ∃ location, e = .address location ∧ location.Fits G := Iff.rfl

@[simp] lemma fits_step (s : Step α) : (Item.step s).Fits G ↔ s.Fits G := Iff.rfl

lemma bounded_fits [Arithmetic α] (digits : ℕ) (x : α) : Yields (Expr.Fits G) (Expr.bounded digits x) := by
  unfold Expr.bounded
  split
  · exact yields_ok.2 trivial
  · exact yields_error _

@[spec] lemma bounded_spec [Arithmetic α] (digits : ℕ) (x : α) :
    ⦃⌜True⌝⦄ Expr.bounded digits x ⦃⇓? e => ⌜∀ G : Grammar, e.Fits G⌝⦄ :=
  triple_iff_yields.2 fun e he _ => bounded_fits digits x e he

end Fits

/-! ## Work variables -/

/-- The variables and arrays of the code of a reaction. -/
def workNames : List String :=
  ["T", "logT", "pres", "m", "conc", "conc_temp", "fwd_rates", "rev_rates", "pres_mod", "dBdT",
    "mw_avg", "rho_inv", "kf", "kf2", "kr", "Kc", "Pr", "Fcent", "A", "B", "lnF_AB", "X", "Tred", "Pred",
    "cheb_temp_0", "cheb_temp_1", "dot_prod", "j_temp", "pres_mod_temp"]

/-- The grammar of code that uses work variables only. -/
def workGrammar : Grammar := ⟨(· ∈ workNames), fun _ => False, True, False, False, True, True⟩

@[simp] lemma workGrammar_names (name : String) : workGrammar.names name ↔ name ∈ workNames := Iff.rfl

lemma workGrammar_only : workGrammar.Only workNames where
  named _ h := h.elim id False.elim
  plain := id
  silent := id

instance : workGrammar.Stateful where
  flawed := trivial
  loose := trivial
  reads := by simp [workNames]
  sets := by simp [workNames]

section Work
variable {α : Type}

abbrev Expr.Work (e : Expr α) : Prop := e.Fits workGrammar

abbrev Item.Work (i : Item α) : Prop := i.Fits workGrammar

end Work

end Kinetics.Code

namespace Kinetics.Rate

open Code Std.Do

variable {α : Type} [Arithmetic α] {σ : Type} {G : Grammar} [G.Stateful]

/-! ## Rate constants -/

variable {e : Expr α}

omit [Arithmetic α] in
lemma timesTemperature_fits (he : e.Fits G) (n : ℕ) : (timesTemperature e n).Fits G := by
  induction n with
  | zero => exact he
  | succ n ih => exact fits_mul.2 ⟨ih, fits_T⟩

lemma withPower_fits (he : e.Fits G) (b : α) : (withPower e b).Fits G := by
  unfold withPower
  split <;> simp [he]

lemma powerAlone_fits (b : α) : (powerAlone b).Fits G := by
  unfold powerAlone
  split <;> simp

omit [Arithmetic α] in
@[simp] lemma activation_fits (E : α) : (activation E).Fits G := by
  simp [activation]

lemma arrheniusPositive_fits (A b E : α) : Yields (Expr.Fits G) (arrheniusPositive A b E) := by
  refine triple_iff_yields.1 ?_
  mvcgen [arrheniusPositive] with simp_all +zetaDelta [timesTemperature_fits, withPower_fits]

lemma arrheniusNegative_fits (A b E : α) : (arrheniusNegative A b E).Fits G := by
  unfold arrheniusNegative
  split <;> split
  · exact fits_plain
  · split
    · exact timesTemperature_fits fits_plain _
    · simp [powerAlone_fits]
  · simp
  · simp [powerAlone_fits]

lemma arrhenius_fits (A b E : α) : Yields (Expr.Fits G) (arrhenius A b E) := by
  unfold arrhenius
  split
  · exact arrheniusPositive_fits A b E
  · split
    · exact yields_ok.2 (arrheniusNegative_fits A b E)
    · exact yields_error _

@[spec] lemma arrhenius_spec (A b E : α) :
    ⦃⌜True⌝⦄ arrhenius A b E ⦃⇓? e => ⌜∀ (G : Grammar) [G.Stateful], e.Fits G⌝⦄ :=
  triple_iff_yields.2 fun e he _ _ => arrhenius_fits A b E e he

lemma arrheniusOf_fits (parameters : List α) : Yields (Expr.Fits G) (arrheniusOf parameters) :=
  yields_bind fun A => yields_bind fun b => yields_bind fun E => arrhenius_fits A b E

/-! ## Interpolated and Chebyshev rate constants -/

lemma betweenSupports_fits (supports : List (List α)) :
    Yields (fun arms => ∀ arm ∈ arms, arm.1.Fits G ∧ ∀ s ∈ arm.2, s.Fits G) (betweenSupports supports) := by
  fun_induction betweenSupports supports with
  | case1 first second rest ih =>
    have ih := triple_iff_yields.2 ih
    refine triple_iff_yields.1 ?_
    mvcgen [supportRate, supportPressure, ih]
    simp_all +zetaDelta [Condition.Fits]
    assumption
  | case2 => exact yields_ok.2 fun arm ha => absurd ha not_mem_nil

lemma plogRate_fits (r : Reaction σ α) : Yields (Item.Fits G) (plogRate r) := by
  have hs := any_result (supports r)
  have hb (all : List (List α)) := triple_iff_yields.2 (betweenSupports_fits (G := G) all)
  refine triple_iff_yields.1 ?_
  mvcgen [plogRate, supportRate, supportPressure, hs, hb]
  next hl _ hm _ _ _ _ _ hh _ _ =>
  refine ⟨.inl rfl, forall_mem_cons.2 ⟨⟨state_read (by simp), by simp [hl]⟩, forall_mem_append.2 ⟨hm, ?_⟩⟩⟩
  exact forall_mem_singleton.2 ⟨state_read (by simp), by simp [hh]⟩

@[spec] lemma plogRate_spec (r : Reaction σ α) :
    ⦃⌜True⌝⦄ plogRate r ⦃⇓? i => ⌜∀ (G : Grammar) [G.Stateful], i.Fits G⌝⦄ :=
  triple_iff_yields.2 fun i hi _ _ => plogRate_fits r i hi

section Chebyshev

omit [Arithmetic α] in
@[simp] lemma workVariable_fits (second : Bool) : (workVariable second : Expr α).Settable G ∧
    (workVariable second : Expr α).Fits G := by
  cases second <;> simp [workVariable]

omit [Arithmetic α] in
lemma recurrence_fits {two x : Expr α} (ht : two.Fits G) (hx : x.Fits G) (second : Bool) :
    (recurrence two x second).Fits G := by
  simp [recurrence, ht, hx, workVariable_fits]

omit [Arithmetic α] in
lemma pressureTail_fits (places : ℕ) (coefficient : ℕ → ℕ → Except Fault α) (rows : List ℕ)
    (second : Bool) (terms : List ℕ) :
    Yields (fun steps => ∀ s ∈ steps, s.Fits G) (pressureTail places coefficient rows second terms) := by
  induction terms generalizing second with
  | nil => exact yields_ok.2 fun s hs => absurd hs not_mem_nil
  | cons j js ih =>
    refine (yields_mapM (P := Step.Fits G) fun i _ => yields_bind fun c => ?_).bind fun updates hu => ?_
    · exact yields_pure.2 (by simp [partialSum, workVariable_fits])
    · refine (ih (!second)).bind fun rest hr => yields_pure.2 ?_
      rw [forall_mem_cons, forall_mem_append]
      exact ⟨recurrence_fits (fits_numeral 2) (by simp) second, hu, hr⟩

omit [Arithmetic α] in
lemma pressureSums_fits (places : ℕ) (coefficient : ℕ → ℕ → Except Fault α) (rows : List ℕ) (terms : ℕ) :
    Yields (fun steps => ∀ s ∈ steps, s.Fits G) (pressureSums places coefficient rows terms) := by
  refine (yields_mapM (P := Step.Fits G) fun i _ => ?_).bind fun starts hs => ?_
  · exact yields_bind fun c => yields_bind fun d => yields_pure.2 (by simp [partialSum])
  · refine (pressureTail_fits (G := G) places coefficient rows false _).bind fun tail ht => yields_pure.2 ?_
    rw [forall_mem_append, forall_mem_append]
    exact ⟨⟨by simp [workVariable_fits], hs⟩, ht⟩

omit [Arithmetic α] in
lemma temperatureTail_fits {two : Expr α} (ht : two.Fits G) (second : Bool) (rows : List ℕ) :
    ∀ s ∈ temperatureTail two second rows, s.Fits G := by
  induction rows generalizing second with
  | nil => exact fun s hs => absurd hs not_mem_nil
  | cons i rows ih =>
    unfold temperatureTail
    rw [forall_mem_cons, forall_mem_cons]
    exact ⟨recurrence_fits ht (by simp) second, by simp [partialSum, workVariable_fits], ih _⟩

omit [Arithmetic α] in
lemma reduced_fits (places : ℕ) (temperatures pressures : α × α) :
    ∀ s ∈ [reducedTemperature places temperatures, reducedPressure places pressures], s.Fits G := by
  simp [reducedTemperature, reducedPressure]

lemma chebyshevRate_fits (r : Reaction σ α) (defined : Bool) :
    Yields (fun steps => ∀ s ∈ steps, s.Fits G) (chebyshevRate r defined) := by
  refine yields_bind fun temperatures => yields_bind fun pressures => ?_
  refine (pressureSums_fits (G := G) 8 _ _ _).bind fun sums hs => yields_pure.2 ?_
  simp only [forall_mem_append]
  refine ⟨⟨⟨⟨?_, hs⟩, ?_⟩, temperatureTail_fits (fits_numeral 2) false _⟩, by simp⟩
  · cases defined
    · exact reduced_fits 8 temperatures pressures
    · simp
  · simp [partialSum, workVariable_fits]

@[spec] lemma chebyshevRate_spec (r : Reaction σ α) (defined : Bool) :
    ⦃⌜True⌝⦄ chebyshevRate r defined ⦃⇓? steps => ⌜∀ (G : Grammar) [G.Stateful], ∀ s ∈ steps, s.Fits G⌝⦄ :=
  triple_iff_yields.2 fun steps hs _ _ => chebyshevRate_fits r defined steps hs

lemma chebyshevSlope_fits (r : Reaction σ α) : Yields (fun steps => ∀ s ∈ steps, s.Fits G) (chebyshevSlope r) := by
  refine (pressureSums_fits (G := G) 16 _ _ _).bind fun sums hs => yields_pure.2 ?_
  rw [forall_mem_append, forall_mem_append]
  refine ⟨⟨hs, ?_⟩, temperatureTail_fits (fits_literal 20 true 1) false _⟩
  simp [partialSum, workVariable_fits]

end Chebyshev

/-! ## Equilibrium constants, third bodies and broadening factors -/

omit [Arithmetic α] in
lemma exponentItems_fits (first : Bool) (shares : List (Exponents α)) :
    ∀ i ∈ exponentItems first shares, i.Fits G := by
  induction shares generalizing first with
  | nil => exact fun i hi => absurd hi not_mem_nil
  | cons e es ih =>
    refine forall_mem_cons.2 ⟨⟨state_read (by simp), ?_, ?_⟩, ih false⟩
    · simp [exponentPolynomial]
    · simp [exponentPolynomial]

lemma equilibriumItemsSorted_fits (sp : List (Species α)) (r : Reaction ℕ α) :
    Yields (fun items => ∀ i ∈ items, i.Fits G) (equilibriumItemsSorted sp r) := by
  refine yields_bind fun net => ?_
  have hl : ∀ last : Expr α, last.Fits G →
      ∀ i ∈ exponentItems true (net.foldl (fun shares t => addShare shares t.2 t.1) []) ++
        [Item.step (.setVar "Kc" last)], i.Fits G := fun last hl =>
    forall_mem_append.2 ⟨exponentItems_fits true _, by simp [hl]⟩
  dsimp only
  split
  · exact yields_pure.2 (hl _ (by simp))
  · exact yields_bind fun power => yields_pure.2 (hl _ (by simp))

lemma thirdBodySum_fits {concentrations : String} (h : G.names concentrations ∨ G.sources concentrations)
    (efficiencies : List (ℕ × α)) : (thirdBodySum concentrations efficiencies).Fits G := by
  have hf : ∀ (es : List (ℕ × α)) (sum : Expr α), sum.Fits G →
      (es.foldl (addEfficiency concentrations) sum).Fits G := by
    intro es
    induction es with
    | nil => exact fun _ hs => hs
    | cons e es ih =>
      refine fun sum hs => ih _ ?_
      dsimp only [addEfficiency]
      split
      · exact hs
      · split
        · simp [hs, h]
        · split <;> simp [hs, h]
  exact hf efficiencies _ (by simp)

@[spec] lemma sriFactor_spec (before : Option (Expr α)) (r : Reaction σ α) : ⦃⌜True⌝⦄ sriFactor before r
    ⦃⇓? e => ⌜∀ (G : Grammar) [G.Stateful], (∀ b ∈ before, b.Fits G) → e.Fits G⌝⦄ := by
  cases before <;> mvcgen [sriFactor, barrier, decay] with simp_all +zetaDelta

end Kinetics.Rate
