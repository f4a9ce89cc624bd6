import Kinetics.Proofs.StaleMemory
/-!
# Code that runs from every memory

Whether the text of an expression has a value does not depend on the memory: no operand may be
missing, and no two minus signs may touch. Code without such flaws always runs to its end,
provided that the functions it calls return (`runs_of_fits`).
-/

open List

namespace Kinetics.Code

noncomputable section

/-! ## Code without flaws -/

variable {steps : List (Step Exact)}

section Whole
variable {G : Grammar} (hwhole : ¬G.flawed) (htight : ¬G.loose)

include hwhole htight

variable {e : Expr Exact}

/-- An expression without flaws can be read wherever an operand is due. -/
lemma read_of_fits (h : e.Fits G) (σ : Memory) (before scale : ℝ) (divides : Bool) :
    ∃ before' term, e.read σ (.want before scale divides) = some (.got before' term) := by
  induction e generalizing before scale divides with
  | number | constant | element | pointee | firstColumn => exact ⟨_, _, rfl⟩
  | negate after e ih =>
    have hfr : e.startsSigned = false := by
      have := h.1.resolve_left htight
      cases e <;> first | rfl | exact this.elim
    obtain ⟨b, t, hr⟩ := ih h.2 before (-scale) divides
    refine ⟨b, t, ?_⟩
    rw [Expr.read, hfr, Bool.and_false]
    exact hr
  | binary op gap a b iha ihb =>
    obtain ⟨ha, hgp, hb⟩ := h
    have hap : (op == .minus && gap.isTight && b.startsSigned) = false := by
      obtain hop | rfl := hgp.resolve_left htight
      · simp [hop]
      · cases op <;> rfl
    obtain ⟨x, y, hr⟩ := iha (ha.resolve_right fun hh => htight hh.1) before scale divides
    -- after an operand every operator is admitted
    obtain ⟨before', scale', divides', hop⟩ : ∃ before' scale' divides',
        Scan.operator op (.got x y) = some (.want before' scale' divides') := by
      cases op <;> exact ⟨_, _, _, rfl⟩
    obtain ⟨u, v, hrs⟩ := ihb hb before' scale' divides'
    refine ⟨u, v, ?_⟩
    simp only [Expr.read, hr, hap, hop, Option.bind_eq_bind, Option.bind_some, Bool.false_eq_true, if_false]
    exact hrs
  | apply f inner e ih =>
    obtain ⟨g, hg⟩ : ∃ g, function1 f = some g := by
      have hf := h.1
      simp only [mem_cons, not_mem_nil, or_false] at hf
      obtain rfl | rfl | rfl := hf <;> exact ⟨_, rfl⟩
    obtain ⟨x, y, hr⟩ := ih h.2 0 1 false
    simp only [Expr.read, Scan.start, hg, hr, Option.bind_eq_bind, Option.bind_some, Scan.finish]
    exact ⟨_, _, rfl⟩
  | apply2 f a b iha ihb =>
    obtain ⟨g, hg⟩ : ∃ g, function2 f = some g := by
      have hf := h.1
      simp only [mem_cons, not_mem_nil, or_false] at hf
      obtain rfl | rfl := hf <;> exact ⟨_, rfl⟩
    obtain ⟨x, y, hr⟩ := iha h.2.1 0 1 false
    obtain ⟨u, v, hr'⟩ := ihb h.2.2 0 1 false
    simp only [Expr.read, Scan.start, hg, hr, hr', Option.bind_eq_bind, Option.bind_some, Scan.finish]
    exact ⟨_, _, rfl⟩
  | tenPower e ih | group e ih =>
    obtain ⟨x, y, hr⟩ := ih h 0 1 false
    simp only [Expr.read, Scan.start, hr, Option.bind_eq_bind, Option.bind_some, Scan.finish]
    exact ⟨_, _, rfl⟩
  | padded _ _ e ih => exact ih h before scale divides
  | hole => exact absurd h hwhole
  | opened | beside | address | named | slot => exact absurd h.1 hwhole

lemma value_of_fits (h : e.Fits G) (σ : Memory) : ∃ v, e.value σ = some v := by
  obtain ⟨x, y, hr⟩ := read_of_fits hwhole htight h σ 0 1 false
  exact ⟨x + y, value_eq_some.2 ⟨x, y, hr, rfl⟩⟩

variable {s : Step Exact}

lemma run_of_fits (h : s.Fits G) (hc : ∀ indent f spaced arguments, s ≠ .call indent f spaced arguments)
    (σ : Memory) : ∃ τ, s.run σ = some τ := by
  cases s with
  | assign indent target form value =>
    obtain ⟨p, hp⟩ : ∃ p, target.location = some p := by
      have := h.1
      cases target <;> first | exact ⟨_, rfl⟩ | exact this.elim
    obtain ⟨v, hv⟩ := value_of_fits hwhole htight h.2 σ
    exact ⟨_, run_assign indent form hp hv⟩
  | declare indent type declared size value ending =>
    cases value with
    | none => exact ⟨σ, rfl⟩
    | some e =>
      obtain ⟨v, hv⟩ := value_of_fits hwhole htight (h.2.2 e rfl) σ
      simp only [Step.run, hv]
      exact ⟨_, rfl⟩
  | comment | blank | line => exact ⟨σ, rfl⟩
  | call indent f spaced arguments => exact absurd rfl (hc indent f spaced arguments)
  | give => exact h.elim

variable (hsilent : ¬G.calls)

include hsilent

lemma runSteps_of_fits (h : ∀ s ∈ steps, s.Fits G) (σ : Memory) : ∃ τ, runSteps σ steps = some τ := by
  induction steps generalizing σ with
  | nil => exact ⟨σ, rfl⟩
  | cons s rest ih =>
    rw [forall_mem_cons] at h
    obtain ⟨σ₁, hσ₁⟩ := run_of_fits hwhole htight h.1 (fun _ _ _ _ hs => hsilent (hs ▸ h.1).1) σ
    rw [runSteps, hσ₁]
    exact ih h.2 σ₁

lemma runArms_of_fits {arms : List (Condition Exact × List (Step Exact))} (h : ∀ arm ∈ arms, ∀ s ∈ arm.2, s.Fits G)
    (σ : Memory) : ∃ τ, runArms σ arms = some τ := by
  induction arms with
  | nil => exact ⟨σ, rfl⟩
  | cons arm rest ih =>
    rw [forall_mem_cons] at h
    rw [runArms]
    split
    · exact runSteps_of_fits hwhole htight hsilent h.1 σ
    · exact ih h.2

end Whole

/-! ## Runs to the end -/

def Callees.Total (callees : Callees) : Prop := ∀ f arguments σ, ∃ τ, callees f arguments σ = some τ

/-- The code runs to its end from every memory, provided that the functions it calls return. -/
def Runs (items : List (Item Exact)) : Prop :=
  ∀ callees : Callees, callees.Total → ∀ σ, ∃ τ, perform callees σ items = some τ

variable {items more : List (Item Exact)}

lemma perform_append (callees : Callees) (σ : Memory) (xs ys : List (Item Exact)) :
    perform callees σ (xs ++ ys) = (perform callees σ xs).bind fun τ => perform callees τ ys := by
  induction xs generalizing σ with
  | nil => rfl
  | cons i xs ih => simp only [cons_append, perform, Option.bind_assoc, ih]

lemma Runs.append (h : Runs items) (h' : Runs more) : Runs (items ++ more) := by
  intro callees hc σ
  obtain ⟨τ, hτ⟩ := h callees hc σ
  rw [perform_append, hτ]
  exact h' callees hc τ

lemma runs_of_perform (h : ∀ i ∈ items, ∀ callees : Callees, callees.Total → ∀ σ, ∃ τ, i.perform callees σ = some τ) :
    Runs items := by
  intro callees hc σ
  induction items generalizing σ with
  | nil => exact ⟨σ, rfl⟩
  | cons i items ih =>
    rw [forall_mem_cons] at h
    obtain ⟨σ₁, hσ₁⟩ := h.1 callees hc σ
    rw [perform, hσ₁]
    exact ih h.2 σ₁

section Whole
variable {G : Grammar} (hwhole : ¬G.flawed) (htight : ¬G.loose)

include hwhole htight

lemma perform_of_fits {s : Step Exact} (h : s.Fits G) {callees : Callees} (hc : callees.Total) (σ : Memory) :
    ∃ τ, (Item.step s).perform callees σ = some τ := by
  unfold Item.perform
  split
  · exact hc _ _ _
  · next hcl => exact run_of_fits hwhole htight h (fun _ _ _ _ hs => hcl _ _ _ _ (congrArg Item.step hs)) σ

lemma runs_of_step_fits (h : ∀ s ∈ steps, s.Fits G) : Runs (steps.map .step) :=
  runs_of_perform (forall_mem_map.2 fun s hs _ hc σ => perform_of_fits hwhole htight (h s hs) hc σ)

lemma runs_of_fits (hsilent : ¬G.calls) (h : ∀ i ∈ items, i.Fits G) : Runs items := by
  refine runs_of_perform fun i hi callees hc σ => ?_
  have hi := h i hi
  cases i with
  | step s => exact perform_of_fits hwhole htight hi hc σ
  | split indent condition below above =>
    simp only [Item.perform, Item.run]
    split
    · exact runSteps_of_fits hwhole htight hsilent hi.2.1 σ
    · exact runSteps_of_fits hwhole htight hsilent hi.2.2 σ
  | choice indent arms closed =>
    have hcl : closed = true := hi.1.resolve_right fun ho => ho.elim (fun he => htight he.1) hwhole
    subst hcl
    exact runArms_of_fits hwhole htight hsilent (fun arm ha => (hi.2 arm ha).2) σ
  | load | release | consult => exact ⟨σ, rfl⟩

end Whole

/-- Code that runs without the surrounding program calls nothing. -/
lemma perform_of_runItems (callees : Callees) {σ τ : Memory} (h : runItems σ items = some τ) :
    perform callees σ items = some τ := by
  induction items generalizing σ with
  | nil => exact h
  | cons i items ih =>
    rw [runItems, Option.bind_eq_some_iff] at h
    obtain ⟨σ₁, hf, hr⟩ := h
    have hi : i.perform callees σ = some σ₁ := by
      unfold Item.perform
      split
      · cases hf
      · exact hf
    rw [perform, hi]
    exact ih hr

lemma runs_of_runItems (h : ∀ σ, (runItems σ items).isSome = true) : Runs items := by
  intro callees _ σ
  obtain ⟨τ, hτ⟩ := Option.isSome_iff_exists.1 (h σ)
  exact ⟨τ, perform_of_runItems callees hτ⟩

end

end Kinetics.Code
