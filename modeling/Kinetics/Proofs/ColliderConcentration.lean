import Kinetics.Proofs.RatesOfProgress
/-!
# The shared concentration of colliders

The Jacobian code keeps the concentration of colliders in `conc_temp`. From one falloff
reaction to the next it adds the change of the efficiencies, where that is shorter than
the whole sum. `colliderItems_run` gives the content of `conc_temp` after the statements
of a reaction: the concentration of its own colliders, unless its efficiencies are all one
and the concentration of an earlier reaction is there to be taken over.
-/

open List

namespace Kinetics.Jacobian

open Code

noncomputable section

/-! ## Sums of excesses -/

section Sums
variable {c : ℕ → ℝ} {last new : Excess Exact}

def weighted (c : ℕ → ℝ) (excess : Excess Exact) : ℝ := (excess.map fun t => t.2.toReal * c t.1).sum

@[simp] lemma weighted_nil : weighted c [] = 0 := rfl

@[simp] lemma weighted_cons (t : ℕ × Exact) (l : Excess Exact) :
    weighted c (t :: l) = t.2.toReal * c t.1 + weighted c l := rfl

@[simp] lemma weighted_append (k l : Excess Exact) : weighted c (k ++ l) = weighted c k + weighted c l := by
  simp [weighted]

/-- Efficiencies of one have no excess, so nothing is lost without them. -/
lemma weighted_excessOf (total : ℝ) (efficiencies : List (ℕ × Exact)) :
    total + weighted c (excessOf efficiencies) = thirdBodies total c efficiencies := by
  congr 1
  induction efficiencies with
  | nil => rfl
  | cons t l ih =>
    rw [map_cons, sum_cons, ← ih]
    by_cases h : t.2.toReal = 1
    · simp [excessOf, h]
    · simp [excessOf, h]

lemma nodup_excessOf {efficiencies : List (ℕ × Exact)} (h : (efficiencies.map (·.1)).Nodup) :
    ((excessOf efficiencies).map (·.1)).Nodup := by
  rw [excessOf, map_map]
  exact h.sublist (filter_sublist.map _)

/-- The excess of a species, zero for those that are not listed. -/
def excessAt (excess : Excess Exact) (s : ℕ) : ℝ := match excess.find? (·.1 == s) with
  | some e => e.2.toReal
  | none => 0

lemma excessAt_of_not_mem {excess : Excess Exact} {s : ℕ} (h : s ∉ excess.map (·.1)) : excessAt excess s = 0 := by
  have hn : excess.find? (·.1 == s) = none := by
    simp only [List.find?_eq_none, beq_iff_eq]
    exact fun t ht hs => h (hs ▸ mem_map_of_mem ht)
  rw [excessAt, hn]

lemma excessAt_cons {t : ℕ × Exact} {l : Excess Exact} (h : t.1 ∉ l.map (·.1)) (s : ℕ) :
    excessAt (t :: l) s = (if s = t.1 then t.2.toReal else 0) + excessAt l s := by
  by_cases hs : s = t.1
  · subst hs
    rw [excessAt_of_not_mem h]
    simp [excessAt]
  · have hne : (t.1 == s) = false := beq_false_of_ne (Ne.symm hs)
    simp [excessAt, hne, hs]

/-- A list of excesses splits into the species of another list and the rest. -/
lemma weighted_split (hl : (last.map (·.1)).Nodup) (hn : (new.map (·.1)).Nodup) :
    weighted c last = (new.map fun t => excessAt last t.1 * c t.1).sum
      + weighted c (last.filter fun e => !new.any (·.1 == e.1)) := by
  induction last with
  | nil => simp [excessAt]
  | cons t l ih =>
    rw [map_cons, nodup_cons] at hl
    have hs : (new.map fun u => excessAt (t :: l) u.1 * c u.1).sum =
        (new.map fun u => if u.1 = t.1 then t.2.toReal * c t.1 else 0).sum
          + (new.map fun u => excessAt l u.1 * c u.1).sum := by
      rw [← sum_map_add]
      congr 1
      refine map_congr_left fun u _ => ?_
      rw [excessAt_cons hl.1]
      by_cases hu : u.1 = t.1 <;> simp [hu, add_mul]
    rw [weighted_cons, ih hl.2, hs, filter_cons]
    -- the first species is either among the others or kept by the filter
    by_cases ht : t.1 ∈ new.map (·.1)
    · have ha : (new.any (·.1 == t.1)) = true := by simpa using ht
      rw [sum_map_of_mem _ hn ht]
      simp only [ha, Bool.not_true, Bool.false_eq_true, if_false]
      ring
    · have ha : (new.any (·.1 == t.1)) = false := by
        simp only [any_eq_false, beq_iff_eq]
        exact fun u hu hut => ht (hut ▸ mem_map_of_mem hu)
      rw [sum_map_of_not_mem _ ht]
      simp only [ha, Bool.not_false, if_true, weighted_cons]
      ring

/-- How the excess of one entry differs from what it was before. -/
def entryChange (last : Excess Exact) (t : ℕ × Exact) : Exact := match last.find? (·.1 == t.1) with
  | some e => t.2 - e.2
  | none => t.2

lemma entryChange_toReal (last : Excess Exact) (t : ℕ × Exact) :
    (entryChange last t).toReal = t.2.toReal - excessAt last t.1 := by
  unfold entryChange excessAt
  cases last.find? (·.1 == t.1) <;> simp

lemma excessChange_eq (last new : Excess Exact) : excessChange last new = new.filterMap (fun t =>
        if Arithmetic.isZero (entryChange last t) then none else some (t.1, entryChange last t))
      ++ (last.filter fun e => !new.any (·.1 == e.1)).map fun t => (t.1, -t.2) := by
  unfold excessChange entryChange
  congr 2
  funext ⟨s, x⟩
  dsimp only
  cases last.find? (·.1 == s) <;> rfl

lemma weighted_excessChange (hl : (last.map (·.1)).Nodup) (hn : (new.map (·.1)).Nodup) :
    weighted c (excessChange last new) = weighted c new - weighted c last := by
  have hk : ∀ l : Excess Exact, weighted c (l.filterMap fun t =>
      if Arithmetic.isZero (entryChange last t) then none else some (t.1, entryChange last t)) =
      weighted c l - (l.map fun t => excessAt last t.1 * c t.1).sum := by
    intro l
    induction l with
    | nil => simp
    | cons t l ih =>
      have hc := entryChange_toReal last t
      rw [filterMap_cons, map_cons, sum_cons, weighted_cons]
      by_cases hz : (entryChange last t).toReal = 0
      · rw [if_pos ((Exact.isZero_iff _).2 hz)]
        linear_combination ih + c t.1 * (hz.symm.trans hc)
      · rw [if_neg (by simpa using hz)]
        simp only [weighted_cons, ih, hc]
        ring
  have hd : ∀ l : Excess Exact, weighted c (l.map fun t => (t.1, -t.2)) = -weighted c l := by
    intro l
    induction l with
    | nil => simp
    | cons t l ih =>
      rw [map_cons, weighted_cons, ih, weighted_cons, Exact.toReal_neg]
      ring
  rw [excessChange_eq, weighted_append, hk, hd, weighted_split hl hn]
  ring

lemma weighted_of_sameExcess {x y : Excess Exact} (h : sameExcess x y = true) : weighted c x = weighted c y := by
  unfold sameExcess at h
  induction x generalizing y with
  | nil =>
    cases y with
    | nil => rfl
    | cons u y => simp [Species.agree] at h
  | cons t x ih =>
    cases y with
    | nil => simp [Species.agree] at h
    | cons u y =>
      simp only [Species.agree, Bool.and_eq_true, beq_iff_eq, Exact.eq_iff] at h
      rw [weighted_cons, weighted_cons, ih h.2, h.1.1, h.1.2]

lemma sameExcess_self (x : Excess Exact) : sameExcess x x = true := by
  unfold sameExcess
  induction x with
  | nil => rfl
  | cons t x ih => simp [Species.agree, ih]

end Sums

/-! ## The statements -/

section Statements
variable {σ : Memory} {last new : Excess Exact} {shared : Option (Excess Exact)} {r : Reaction ℕ Exact}

lemma excessTerms_value (l : Excess Exact) {e : Expr Exact} {x : ℝ} (h : e.value σ = some x) :
    (l.foldl (fun sum (t, y) =>
      let term := .plain (Arithmetic.abs y) * .cell "conc" t
      if Arithmetic.isNegative y then sum - term else sum + term) e).value σ =
      some (x + weighted (σ.row "conc") l) := by
  induction l generalizing e x with
  | nil => simpa using h
  | cons t l ih =>
    have ht : Term σ (.plain (Arithmetic.abs t.2) * .cell "conc" t.1) (|t.2.toReal| * σ.row "conc" t.1) := by
      have := (Factor.plain (σ := σ) (Arithmetic.abs t.2)).term.mul (Factor.cell "conc" t.1).term
      rwa [Exact.toReal_abs] at this
    rw [foldl_cons, weighted_cons, ← add_assoc]
    refine ih ?_
    dsimp only
    by_cases hn : t.2.toReal < 0
    · rw [if_pos ((Exact.isNegative_iff _).2 hn), value_sub h ht, abs_of_neg hn]
      congr 1
      ring
    · rw [if_neg (by simpa using hn), value_add h ht, abs_of_nonneg (not_lt.1 hn)]

lemma excessSum_value (h : new ≠ []) : (excessSum none new).value σ = some (weighted (σ.row "conc") new) ∧
      (excessSum (some (.var "m")) new).value σ = some (σ.var "m" + weighted (σ.row "conc") new) := by
  obtain ⟨t, l, rfl⟩ := exists_cons_of_ne_nil h
  have hf : Term σ (.plain t.2 * .cell "conc" t.1) (t.2.toReal * σ.row "conc" t.1) :=
    (Factor.plain t.2).term.mul (Factor.cell "conc" t.1).term
  rw [weighted_cons, ← add_assoc]
  exact ⟨excessTerms_value l hf.value, excessTerms_value l (value_add (Factor.var "m").value hf)⟩

/-- The statement brings the sum from the old excesses to the new ones. Without new excesses there
is no statement, whatever the old ones were. -/
lemma updateCollider_run (hl : (last.map (·.1)).Nodup) (hn : (new.map (·.1)).Nodup)
    (h : σ.var "conc_temp" = σ.var "m" + weighted (σ.row "conc") last) :
    runSteps σ (updateCollider last new) = some (σ.setVar "conc_temp"
      (if new = [] then σ.var "conc_temp" else σ.var "m" + weighted (σ.row "conc") new)) := by
  have hc := weighted_excessChange (c := σ.row "conc") hl hn
  -- the three things that can be written: nothing, an addition, or the whole sum
  have ha : ∀ used, used ≠ [] → weighted (σ.row "conc") used = weighted (σ.row "conc") (excessChange last new) →
      runSteps σ [.assign 2 (.var "conc_temp") .add (.group (excessSum none used))] =
        some (σ.setVar "conc_temp" (σ.var "m" + weighted (σ.row "conc") new)) := by
    intro used hu hsm
    rw [runSteps, run_assign 2 .add rfl (Factor.group (excessSum_value hu).1).value]
    simp only [Option.bind_some, runSteps, Form.update]
    congr 2
    change σ.var "conc_temp" + _ = _
    rw [h, hsm, hc]
    ring
  unfold updateCollider
  by_cases hln : (excessChange last new).length < new.length
  · have hnw : new ≠ [] := by
      rintro rfl
      simp at hln
    simp only [hln, if_true, sameExcess_self, if_neg hnw]
    by_cases he : excessChange last new = []
    · have hs : σ.var "conc_temp" = σ.var "m" + weighted (σ.row "conc") new := by
        rw [he, weighted_nil] at hc
        rw [h, sub_eq_zero.1 hc.symm]
      rw [if_pos (by simpa using he), ← hs, runSteps, setVar_self]
    · rw [if_neg (by simpa using he)]
      exact ha _ he rfl
  · simp only [hln, if_false]
    by_cases hnw : new = []
    · rw [if_pos (by simpa using hnw), if_pos hnw, runSteps, setVar_self]
    · rw [if_neg (by simpa using hnw), if_neg hnw]
      cases hs : sameExcess new (excessChange last new) with
      | true => exact ha new hnw (weighted_of_sameExcess hs)
      | false =>
        have hst : (Step.setVar "conc_temp" (.group (excessSum (some (.var "m")) new))).run σ = _ :=
          run_setVar "conc_temp" (Factor.group (excessSum_value hnw).2).value
        exact congrArg (Option.bind · _) hst

/-- The memory holds the concentration that the next reaction builds on. -/
def Shares (last : Option (Excess Exact)) (σ : Memory) : Prop :=
  ∀ x, last = some x → (x.map (·.1)).Nodup ∧ σ.var "conc_temp" = σ.var "m" + weighted (σ.row "conc") x

/-- The concentration of an earlier reaction is taken over as it is: there are efficiencies, but
all of them are one. -/
def Inherits (last : Option (Excess Exact)) (r : Reaction ℕ Exact) : Prop :=
  last.isSome ∧ r.collider = none ∧ r.efficiencies ≠ [] ∧ excessOf r.efficiencies = []

open Classical in
lemma colliderItems_run (h : Shares shared σ) (hn : (r.efficiencies.map (·.1)).Nodup) :
    runItems σ (colliderItems shared r).1 = some (σ.setVar "conc_temp"
      (if Inherits shared r then σ.var "conc_temp"
        else colliderConcentration r (σ.var "m") (σ.row "conc"))) := by
  have hs : ∀ {e : Expr Exact} {v : ℝ}, e.value σ = some v →
      runItems σ [.step (.setVar "conc_temp" e)] = some (σ.setVar "conc_temp" v) := by
    intro e v he
    rw [runItems, Item.run, run_setVar "conc_temp" he]
    rfl
  unfold colliderItems colliderConcentration
  cases hc : r.collider with
  | some s =>
    have ho : ¬Inherits shared r := fun hi => by simp [hi.2.1] at hc
    rw [if_neg ho]
    exact hs (Factor.cell "conc" s).value
  | none =>
    dsimp only
    by_cases he : r.efficiencies = []
    · rw [if_pos (by simpa using he), if_neg fun hi => hi.2.2.1 he]
      simpa [thirdBodies, he] using hs (Factor.var "m").value
    · rw [if_neg (by simpa using he)]
      cases shared with
      | none =>
        rw [if_neg fun hi => by simp [Inherits] at hi]
        exact hs (Factor.group (thirdBodySum_value σ "conc" r.efficiencies)).value
      | some x =>
        obtain ⟨hx, hh⟩ := h x rfl
        have hr := updateCollider_run hx (nodup_excessOf hn) hh
        have hif : Inherits (some x) r ↔ excessOf r.efficiencies = [] :=
          ⟨fun hi => hi.2.2.2, fun hi => ⟨rfl, hc, he, hi⟩⟩
        rw [weighted_excessOf] at hr
        simp only [runItems, Item.run, Option.bind_some, runItems_steps, hr, hif]

end Statements

end

end Kinetics.Jacobian
