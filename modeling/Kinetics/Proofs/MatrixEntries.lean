import Kinetics.Proofs.DerivativeNames
import Kinetics.Proofs.StaleMemory
/-!
# Entries of the matrix

The entries of the temperature column and of the species columns lie in `jac`,
those of the last species in `J_nplusone` and `J_nplusjplus`. All of them are
different locations, and no work variable is among them. So the assignments that
fill the matrix disturb neither each other nor the quantities that they add.
-/

open List

namespace Kinetics.Code

noncomputable section

variable {σ τ ρ : Memory}

/-! ## Locations apart from the work variables -/

/-- A location with none of the names of the work variables. -/
def Apart (p : Place) : Prop := ∀ a ∈ workNames, ∀ i, Place.cell a i ≠ p

lemma apart_cell {array : String} (h : array ∉ workNames) (i : Option ℤ) : Apart (.cell array i) := by
  rintro a ha k hk
  cases hk
  exact h ha

/-- Code over work variables does the same to memories that agree on them, and leaves the rest. -/
lemma runItems_work {items : List (Item Exact)} (hi : ∀ i ∈ items, i.Work) (h : Agree workNames σ ρ) :
    Option.Rel (fun τ ρ' => Agree workNames τ ρ' ∧ ∀ p, Apart p → τ p = σ p) (runItems σ items) (runItems ρ items) := by
  have hr := runItems_congr workGrammar_only h hi
  have hk : ∀ τ, runItems σ items = some τ → ∀ p, Apart p → τ p = σ p := by
    refine fun τ hτ p hp => runItems_frame hτ fun i hmem hw => ?_
    obtain ⟨a, ha, k, rfl⟩ := (hi i hmem).writes id And.right hw
    exact hp a ha k rfl
  generalize runItems σ items = x, runItems ρ items = y at hr hk ⊢
  cases hr with
  | some h => exact .some ⟨h, hk _ rfl⟩
  | none => exact .none

/-! ## Changes of single locations -/

/-- A change of one location: the way it changes and the amount, if it has a value. -/
structure Change where
  place : Place
  form : Form
  amount : Option ℝ

def Change.apply (σ : Memory) (c : Change) : Option Memory :=
  c.amount.map fun v => Function.update σ c.place (c.form.update (σ c.place) v)

def applyAll (σ : Memory) : List Change → Option Memory
  | [] => some σ
  | c :: rest => (c.apply σ).bind fun τ => applyAll τ rest

/-- A statement makes a change in every memory that agrees with the given one on the work variables. -/
structure Makes (ρ : Memory) (s : Step Exact) (c : Change) : Prop where
  apart : Apart c.place
  updates : s.updates = [(c.place, c.form)]
  reads : ∀ p ∈ s.reads, ¬Apart p
  run : ∀ σ, Agree workNames σ ρ → s.run σ = c.apply σ

lemma makes_assign {target value : Expr Exact} {p : Place} (ht : target.location = some p)
    (hp : Apart p) (hv : value.Work) (indent : ℕ) (form : Form) :
    Makes ρ (.assign indent target form value) ⟨p, form, value.value ρ⟩ where
  apart := hp
  updates := by rw [Step.updates, ht]; rfl
  reads q hq hap := by
    obtain ⟨c, -, rfl⟩ := mem_map.1 hq
    obtain ⟨array, ha, index, hpl⟩ := hv.places id _ (cell_mem_reads.1 hq)
    exact hap array (ha.resolve_right id) index hpl.symm
  run σ h := by
    rw [Step.run, ht, value_congr workGrammar_only h hv]
    cases value.value ρ <;> rfl

lemma agree_apply {c : Change} (hc : Apart c.place) (h : c.apply σ = some τ) : Agree workNames τ σ := by
  obtain ⟨v, -, rfl⟩ := Option.map_eq_some_iff.1 h
  exact agree_update hc _

/-- Items that make changes one after the other, with look-ups and blank lines among them. -/
inductive MakeAll (ρ : Memory) : List (Item Exact) → List Change → Prop
  | nil : MakeAll ρ [] []
  | blank {items : List (Item Exact)} {cs : List Change} (h : MakeAll ρ items cs) : MakeAll ρ (.step .blank :: items) cs
  | consult (cells : List (String × Option ℤ)) {items : List (Item Exact)} {cs : List Change} (h : MakeAll ρ items cs) :
    MakeAll ρ (.consult cells :: items) cs
  | step {s : Step Exact} {c : Change} {items : List (Item Exact)} {cs : List Change} (hs : Makes ρ s c)
    (h : MakeAll ρ items cs) : MakeAll ρ (.step s :: items) (c :: cs)

lemma makeAll_steps {steps : List (Step Exact)} {cs : List Change} (h : List.Forall₂ (Makes ρ) steps cs) :
    MakeAll ρ (steps.map .step) cs := by
  induction h with
  | nil => exact .nil
  | cons hs _ ih => exact .step hs ih

namespace MakeAll
variable {items more : List (Item Exact)} {cs ds : List Change}

lemma append (h : MakeAll ρ items cs) (h' : MakeAll ρ more ds) : MakeAll ρ (items ++ more) (cs ++ ds) := by
  induction h with
  | nil => exact h'
  | blank _ ih => exact .blank ih
  | consult _ _ ih => exact .consult _ ih
  | step hs _ ih => exact .step hs ih

lemma run (h : MakeAll ρ items cs) (hσ : Agree workNames σ ρ) : runItems σ items = applyAll σ cs := by
  induction h generalizing σ with
  | nil => rfl
  | blank _ ih => exact ih hσ
  | consult _ _ ih => exact ih hσ
  | @step s c items cs hs _ ih =>
    rw [runItems, applyAll, Item.run, hs.run σ hσ]
    cases hc : c.apply σ with
    | none => rfl
    | some τ =>
      exact ih ((agree_apply hs.apart hc).trans hσ)

lemma updates_eq (h : MakeAll ρ items cs) : updates items = cs.map fun c => (c.place, c.form) := by
  induction h with
  | nil => rfl
  | blank _ ih => exact ih
  | consult _ _ ih => exact ih
  | step hs _ ih => rw [updates, flatMap_cons, Item.updates, hs.updates, map_cons, ← ih]; rfl

lemma mem_updates (h : MakeAll ρ items cs) {i : Item Exact} (hi : i ∈ items) {u : Place × Form} (hu : u ∈ i.updates) :
    ∃ c ∈ cs, (c.place, c.form) = u :=
  mem_map.1 (h.updates_eq ▸ mem_flatMap.2 ⟨i, hi, hu⟩)

lemma mem_writes (h : MakeAll ρ items cs) {i : Item Exact} (hi : i ∈ items) {p : Place} (hp : p ∈ i.writes) :
    ∃ c ∈ cs, c.place = p := by
  rw [← Item.map_updates] at hp
  obtain ⟨u, hu, rfl⟩ := mem_map.1 hp
  obtain ⟨c, hc, rfl⟩ := h.mem_updates hi hu
  exact ⟨c, hc, rfl⟩

/-- Only single statements update anything, and only work variables are read. -/
lemma plain (h : MakeAll ρ items cs) :
    ∀ i ∈ items, ((∃ s, i = .step s) ∨ i.updates = []) ∧ ∀ p ∈ i.reads, ¬Apart p := by
  induction h with
  | nil => exact forall_mem_nil _
  | blank _ ih => exact forall_mem_cons.2 ⟨⟨.inl ⟨_, rfl⟩, forall_mem_nil _⟩, ih⟩
  | consult _ _ ih => exact forall_mem_cons.2 ⟨⟨.inr rfl, forall_mem_nil _⟩, ih⟩
  | step hs _ ih => exact forall_mem_cons.2 ⟨⟨.inl ⟨_, rfl⟩, hs.reads⟩, ih⟩

end MakeAll

/-- What changes of different locations do. -/
structure Changed (cs : List Change) (σ τ : Memory) : Prop where
  entries : ∀ c ∈ cs, ∀ v, c.amount = some v → τ c.place = c.form.update (σ c.place) v
  others : ∀ p, (∀ c ∈ cs, c.place ≠ p) → τ p = σ p

lemma Changed.agree {cs : List Change} (h : Changed cs σ τ) (hp : ∀ c ∈ cs, Apart c.place) : Agree workNames τ σ :=
  fun a ha i => h.others _ fun c hc => Ne.symm (hp c hc a ha i)

/-- Changes of different locations, all with a value, change each location as if it were the only
one. -/
lemma applyAll_some {cs : List Change} (hn : (cs.map Change.place).Nodup)
    (ha : ∀ c ∈ cs, c.amount.isSome) : ∃ τ, applyAll σ cs = some τ ∧ Changed cs σ τ := by
  induction cs generalizing σ with
  | nil => exact ⟨σ, rfl, by simp, fun _ _ => rfl⟩
  | cons c cs ih =>
    rw [map_cons, nodup_cons] at hn
    obtain ⟨v, hv⟩ := Option.isSome_iff_exists.1 (ha c mem_cons_self)
    have hne : ∀ d ∈ cs, d.place ≠ c.place := fun d hd he => hn.1 (he ▸ mem_map_of_mem hd)
    obtain ⟨τ, hτ, hen, ho⟩ := ih (σ := Function.update σ c.place (c.form.update (σ c.place) v)) hn.2
        fun d hd => ha d (mem_cons_of_mem _ hd)
    refine ⟨τ, by rw [applyAll, Change.apply, hv]; exact hτ, fun d hd w hw => ?_, fun p hp => ?_⟩
    -- later changes leave this location alone, and this change left theirs alone
    · rcases mem_cons.1 hd with rfl | hd
      · cases hv.symm.trans hw
        rw [ho d.place hne, Function.update_self]
      · rw [hen d hd w hw, Function.update_of_ne (hne d hd)]
    · rw [ho p fun d hd => hp d (mem_cons_of_mem _ hd)]
      exact Function.update_of_ne (Ne.symm (hp c mem_cons_self)) _ _

lemma applyAll_none {cs : List Change} (h : ∃ c ∈ cs, c.amount = none) : applyAll σ cs = none := by
  induction cs generalizing σ with
  | nil => obtain ⟨c, hc, -⟩ := h; cases hc
  | cons d cs ih =>
    obtain ⟨c, hc, hn⟩ := h
    rcases mem_cons.1 hc with rfl | hc
    · rw [applyAll, Change.apply, hn]
      rfl
    · rw [applyAll]
      cases d.apply σ with
      | none => rfl
      | some τ => exact ih ⟨c, hc, hn⟩

end

end Kinetics.Code

namespace Kinetics.Jacobian

open Code

noncomputable section

variable {n k j k' j' : ℕ}

/-! ## The places of the entries -/

/-- The entry of species `k` in the temperature column. -/
def temperaturePlace (n k : ℕ) : Place := if k + 1 = n then .cell "J_nplusone" none else .cell "jac" (some (k + 1 : ℕ))

/-- The entry of species `k` in the column of species `j`. -/
def compositionPlace (n k j : ℕ) : Place :=
  if k + 1 < n then .cell "jac" (some (k + 1 + n * (j + 1) : ℕ)) else .cell "J_nplusjplus" (some (j : ℕ))

lemma location_temperatureEntry (n k : ℕ) : (temperatureEntry n false k).location = some (temperaturePlace n k) := by
  unfold temperatureEntry temperaturePlace
  split <;> rfl

lemma location_compositionEntry (n k j : ℕ) : (compositionEntry n k j).location = some (compositionPlace n k j) := by
  unfold compositionEntry compositionPlace
  split <;> rfl

lemma temperaturePlace_apart (n k : ℕ) : Apart (temperaturePlace n k) := by
  unfold temperaturePlace
  split <;> exact apart_cell (by simp [workNames]) _

lemma compositionPlace_apart (n k j : ℕ) : Apart (compositionPlace n k j) := by
  unfold compositionPlace
  split <;> exact apart_cell (by simp [workNames]) _

lemma temperaturePlace_injective (h : temperaturePlace n k = temperaturePlace n k') : k = k' := by
  unfold temperaturePlace at h
  split at h <;> split at h
  · omega
  · simp at h
  · simp at h
  · simp only [Place.cell.injEq, Option.some.injEq, Nat.cast_inj, true_and] at h
    omega

/-- Inside the matrix, the position of an entry gives its row and its column. -/
lemma position_injective (hk : k + 1 < n) (hk' : k' + 1 < n)
    (h : k + 1 + n * (j + 1) = k' + 1 + n * (j' + 1)) : k = k' ∧ j = j' := by
  have hrow : k + 1 = k' + 1 := by
    have := congrArg (· % n) h
    simpa only [Nat.add_mul_mod_self_left, Nat.mod_eq_of_lt hk, Nat.mod_eq_of_lt hk'] using this
  rw [hrow, Nat.add_left_cancel_iff] at h
  exact ⟨Nat.succ_injective hrow, Nat.succ_injective (Nat.eq_of_mul_eq_mul_left (by omega) h)⟩

lemma compositionPlace_injective (hk : k < n) (hk' : k' < n)
    (h : compositionPlace n k j = compositionPlace n k' j') : k = k' ∧ j = j' := by
  unfold compositionPlace at h
  split at h <;> split at h
  · next hi hi' =>
    simp only [Place.cell.injEq, Option.some.injEq, Nat.cast_inj, true_and] at h
    exact position_injective hi hi' h
  · simp at h
  · simp at h
  · simp only [Place.cell.injEq, Option.some.injEq, Nat.cast_inj, true_and] at h
    omega

lemma temperaturePlace_ne (hk : k < n) (k' j : ℕ) : temperaturePlace n k ≠ compositionPlace n k' j := by
  intro h
  unfold temperaturePlace compositionPlace at h
  split at h <;> split at h
  · simp at h
  · simp at h
  · simp only [Place.cell.injEq, Option.some.injEq, Nat.cast_inj, true_and] at h
    -- the species columns start behind the first `n` entries
    have : n ≤ n * (j + 1) := Nat.le_mul_of_pos_right n (Nat.succ_pos j)
    omega
  · simp at h

/-! ## What the statements of the columns change -/

/-- The change of a species in the temperature column, for a given `j_temp`. -/
def temperatureChange (n : ℕ) (progress : Progress) (slope : ℝ) (c : ℕ × Exact × Exact) : Change where
  place := temperaturePlace n c.1
  form := if c.1 + 1 < n && progress.temperature.contains c.1 then .add else .set
  amount := some (c.2.2.toReal * slope * c.2.1.toReal)

/-- The change of a species in the column of species `j`, for a given derivative. -/
def compositionChange (n : ℕ) (progress : Progress) (j : ℕ) (weight : ℝ) (derivative : Option ℝ)
    (c : ℕ × Exact × Exact) : Change where
  place := compositionPlace n c.1 j
  form := if progress.composition.contains c.1 then .add else .set
  amount := derivative.map (c.2.1.toReal / weight * c.2.2.toReal * ·)

lemma temperatureShare_value (σ : Memory) (weight nu : Exact) :
    (temperatureShare weight nu).value σ = some (nu.toReal * σ.var "j_temp" * weight.toReal) := by
  have hs := Factor.var (σ := σ) "j_temp"
  unfold temperatureShare
  split
  · next h =>
    rw [(hs.term.mul (Factor.full weight).term).value, (Exact.eq_iff _ _).1 h, Exact.toReal_one, one_mul]
  · split
    · next h =>
      rw [((hs.neg rfl).term.mul (Factor.full weight).term).value, (Exact.eq_iff _ _).1 h,
        Exact.toReal_neg, Exact.toReal_one, neg_one_mul]
    · rw [((hs.term.mul (Factor.plain _).term).mul (Factor.full weight).term).value,
        Exact.toReal_pointed, mul_comm nu.toReal]

lemma compositionShare_value (σ : Memory) (factor : Exact) (derivative : Expr Exact) :
    (compositionShare factor derivative).value σ = (derivative.value σ).map (factor.toReal * ·) := by
  unfold compositionShare
  rw [value_padded]
  split
  · next h => simp [value_neg_group, (Exact.eq_iff _ _).1 h]
  · split
    · next h => simp [value_group, (Exact.eq_iff _ _).1 h]
    · exact value_mul_group (Factor.full factor).term

lemma temperatureForm_eq {progress : Progress} {form : Form} (h : temperatureForm n progress k = .ok form) :
    form = if k + 1 < n && progress.temperature.contains k then .add else .set := by
  unfold temperatureForm at h
  split at h
  · cases h
  · split at h
    · next hadd => cases h; rw [if_pos hadd]
    · next hset => cases h; rw [if_neg hset]

/-- The statements of the temperature column make the changes of the column. -/
lemma temperatureColumn_makes {progress : Progress} {changes : List (ℕ × Exact × Exact)}
    {steps : List (Step Exact)} (h : temperatureColumn n false progress changes = .ok steps) (ρ : Memory) :
    List.Forall₂ (Makes ρ) steps (changes.map (temperatureChange n progress (ρ.var "j_temp"))) := by
  refine forall₂_map_right_iff.2 (List.Forall₂.flip ((mapM_eq_ok.1 h).imp fun c step hs => ?_))
  obtain ⟨form, hf, hs⟩ := bind_eq_ok.1 hs
  cases pure_eq_ok.1 hs
  have hm := makes_assign (ρ := ρ) (location_temperatureEntry n c.1) (temperaturePlace_apart n c.1)
    (temperatureShare_fits c.2.1 c.2.2) 2 form
  rw [temperatureShare_value] at hm
  simpa only [flip, temperatureChange, ← temperatureForm_eq hf] using hm

/-- The statements of a species column make the changes of the column. -/
lemma compositionColumn_makes {progress : Progress} {changes : List (ℕ × Exact × Exact)} {weight : Exact}
    {derivative : Expr Exact} {steps : List (Step Exact)} (hd : derivative.Work)
    (h : compositionColumn n progress changes j weight derivative = .ok steps) (ρ : Memory) :
    List.Forall₂ (Makes ρ) steps (changes.map (compositionChange n progress j weight.toReal (derivative.value ρ))) := by
  refine forall₂_map_right_iff.2 (List.Forall₂.flip ((mapM_eq_ok.1 h).imp fun c step hs => ?_))
  obtain ⟨quotient, hq, hs⟩ := bind_eq_ok.1 hs
  cases pure_eq_ok.1 hs
  have hm := makes_assign (ρ := ρ) (location_compositionEntry n c.1 j) (compositionPlace_apart n c.1 j)
    (compositionShare_fits (quotient * Arithmetic.pointed c.2.2) hd) 2
    (if progress.composition.contains c.1 then .add else .set)
  rw [compositionShare_value, Exact.toReal_mul, Exact.toReal_pointed, (Exact.div_eq_ok hq).2] at hm
  exact hm

end

end Kinetics.Jacobian
