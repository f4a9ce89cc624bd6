import Kinetics.Proofs.ColliderConcentration
/-!
# Collider concentrations from one reaction to the next

Every falloff reaction passes its excesses on to the next one, which may build on the concentration that
is there. Each reaction finds the concentration of its own colliders if and only if no reaction whose
efficiencies are all one comes right after one with other efficiencies (`collider_concentrations`): such a
reaction takes over the concentration that it finds.
-/

open List

namespace Kinetics.Jacobian

open Code

noncomputable section

variable {r p : Reaction ℕ Exact} {reactions : List (Reaction ℕ Exact)} {σ : Memory}

/-- The code of the reduced pressures of reactions in their order, and what the last of them passes on. -/
def pressureItems (reactions : List (Reaction ℕ Exact)) : Except Fault (List (Item Exact) × Option (Excess Exact)) :=
  reactions.foldlM (fun before r => do
    let code ← reducedPressureItems before.2 r
    return (before.1 ++ code.1, code.2)) ([], none)

/-- A reaction finds the concentration of its own colliders after the code of the reactions before it. -/
def FindsOwn (before : List (Reaction ℕ Exact)) (r : Reaction ℕ Exact) : Prop :=
  ∃ items last, pressureItems before = .ok (items, last) ∧
    ∀ σ, ∃ τ, runItems σ (items ++ (colliderItems last r).1) = some τ ∧
      τ.var "conc_temp" = colliderConcentration r (σ.var "m") (σ.row "conc")

/-- The efficiencies of a reaction are all one, and those of the reaction before it are not. -/
def TakesOver (p r : Reaction ℕ Exact) : Prop := (p.collider = none ∧ excessOf p.efficiencies ≠ []) ∧
    r.collider = none ∧ r.efficiencies ≠ [] ∧ excessOf r.efficiencies = []

/-! ## One reaction -/

/-- What a reaction passes on does not depend on what it was passed. -/
lemma colliderItems_next (last : Option (Excess Exact)) (r : Reaction ℕ Exact) : (colliderItems last r).2 =
      if r.collider = none ∧ r.efficiencies ≠ [] then some (excessOf r.efficiencies) else none := by
  unfold colliderItems
  cases r.collider with
  | some s => simp
  | none => cases r.efficiencies <;> cases last <;> simp

lemma limitRatio_term {beta E : Exact} {e : Expr Exact} (h : limitRatio r = .ok (beta, E, e)) (σ : Memory) :
    ∃ v, Term σ e v := by
  have ha : ∀ {A b E : Exact}, Rate.arrhenius A b E = .ok e → ∃ v, Term σ e v := by
    intro A b E he
    have hA : A.toReal ≠ 0 := fun hz => by
      simp [Rate.arrhenius, Exact.isPositive_iff, Exact.isNegative_iff, hz] at he
    obtain ⟨e', he', ht⟩ := Rate.arrhenius_ok hA b E
    cases he.symm.trans he'
    exact ⟨_, ht σ⟩
  unfold limitRatio at h
  split at h
  · simp only [bind_eq_ok, pure_eq_ok, Prod.mk.injEq] at h
    obtain ⟨_, _, _, _, _, _, _, _, _, he, -, -, rfl⟩ := h
    exact ha he
  · split at h
    · simp only [bind_eq_ok, pure_eq_ok, Prod.mk.injEq] at h
      obtain ⟨_, _, _, _, _, _, _, _, _, he, -, -, rfl⟩ := h
      exact ha he
    · cases h

/-- The statements for the concentration come first, and the reduced pressure is computed from it. -/
lemma reducedPressureItems_eq_ok {last next : Option (Excess Exact)} {items : List (Item Exact)}
    (h : reducedPressureItems last r = .ok (items, next)) : next = (colliderItems last r).2 ∧
      (items = (colliderItems last r).1 ∨ ∃ ratio, (∀ σ, ∃ v, Term σ ratio v) ∧
        items = (colliderItems last r).1 ++ [.step (.setVar "Pr" (.var "conc_temp" * .group ratio))]) := by
  simp only [reducedPressureItems] at h
  split at h
  · simp only [bind_eq_ok, pure_eq_ok, Prod.mk.injEq] at h
    obtain ⟨⟨beta, E, ratio⟩, hr, rfl, rfl⟩ := h
    exact ⟨rfl, .inr ⟨ratio, limitRatio_term hr, rfl⟩⟩
  · simp only [pure_eq_ok, Prod.mk.injEq] at h
    exact ⟨h.2.symm, .inl h.1.symm⟩

section Reaction
variable {last next : Option (Excess Exact)} {items : List (Item Exact)} (hn : (r.efficiencies.map (·.1)).Nodup)
  (hσ : Shares last σ) (hown : Inherits last r → last = some [])

include hn hσ hown

/-- A reaction that takes over no excesses has the concentration of its own colliders. -/
lemma colliderItems_own : runItems σ (colliderItems last r).1 = some (σ.setVar "conc_temp"
    (colliderConcentration r (σ.var "m") (σ.row "conc"))) := by
  rw [colliderItems_run hσ hn]
  split
  · next hi =>
    have hh := (hσ [] (hown hi)).2
    rw [colliderConcentration, hi.2.1, ← weighted_excessOf, hi.2.2.2, hh]
  · rfl

lemma reducedPressureItems_keeps (hcd : reducedPressureItems last r = .ok (items, next)) :
    ∃ τ, runItems σ items = some τ ∧ Shares next τ ∧ τ.var "m" = σ.var "m" ∧ τ.row "conc" = σ.row "conc" := by
  have hc := colliderItems_own hn hσ hown
  obtain ⟨rfl, hi⟩ := reducedPressureItems_eq_ok hcd
  have hs : ∀ {τ : Memory}, τ.var "m" = σ.var "m" → τ.row "conc" = σ.row "conc" →
      τ.var "conc_temp" = colliderConcentration r (σ.var "m") (σ.row "conc") → Shares (colliderItems last r).2 τ := by
    intro τ hm hcn ht x hx
    rw [colliderItems_next] at hx
    split at hx
    · next hl =>
      cases hx
      rw [ht, hm, hcn, weighted_excessOf, colliderConcentration, hl.1]
      exact ⟨nodup_excessOf hn, rfl⟩
    · cases hx
  obtain rfl | ⟨ratio, hr, rfl⟩ := hi
  · exact ⟨_, hc, hs (by simp) (by simp) (by simp), by simp, by simp⟩
  · obtain ⟨v, hv⟩ := hr (σ.setVar "conc_temp" (colliderConcentration r (σ.var "m") (σ.row "conc")))
    have hPr := ((Factor.var "conc_temp").term.mul (Factor.group hv.value).term).value
    refine ⟨_, by rw [runItems_append, hc, Option.bind_some, runItems, Item.run, run_setVar "Pr" hPr]; rfl,
      hs ?_ ?_ ?_, ?_, ?_⟩ <;> simp

end Reaction

/-! ## All reactions -/

def passedOn (before : List (Reaction ℕ Exact)) : Option (Excess Exact) :=
  before.getLast?.bind fun p => (colliderItems none p).2

variable {before : List (Reaction ℕ Exact)}

lemma takesOver_iff :
    (∃ p ∈ before.getLast?, TakesOver p r) ↔ Inherits (passedOn before) r ∧ passedOn before ≠ some [] := by
  unfold passedOn TakesOver Inherits
  cases before.getLast? with
  | none => simp
  | some p =>
    rw [Option.bind_some, colliderItems_next]
    by_cases hp : p.collider = none <;> by_cases he : p.efficiencies = [] <;> simp [hp, he, excessOf, and_comm]

lemma own_of_chain (h : ∀ p ∈ before.getLast?, ¬TakesOver p r) :
    Inherits (passedOn before) r → passedOn before = some [] := by
  intro hi
  by_contra ho
  obtain ⟨p, hp, ht⟩ := takesOver_iff.2 ⟨hi, ho⟩
  exact h p hp ht

variable {out : List (Item Exact) × Option (Excess Exact)}

lemma pressureItems_concat :
    pressureItems (before ++ [r]) = .ok out ↔ ∃ items last code, pressureItems before = .ok (items, last) ∧
      reducedPressureItems last r = .ok code ∧ out = (items ++ code.1, code.2) := by
  simp only [pressureItems, foldlM_append, foldlM_cons, foldlM_nil, bind_eq_ok, pure_eq_ok, Prod.exists]
  grind

/-- A chain of reactions of which none takes over excesses leaves the concentration to build on. -/
lemma pressureItems_keeps (hn : ∀ r ∈ reactions, (r.efficiencies.map (·.1)).Nodup)
    (hc : reactions.IsChain fun p r => ¬TakesOver p r) {items : List (Item Exact)} {last : Option (Excess Exact)}
    (hcd : pressureItems reactions = .ok (items, last)) (σ : Memory) :
    last = passedOn reactions ∧ ∃ τ, runItems σ items = some τ ∧ Shares last τ ∧ τ.var "m" = σ.var "m" ∧
      τ.row "conc" = σ.row "conc" := by
  induction reactions using List.reverseRecOn generalizing items last with
  | nil =>
    cases hcd
    refine ⟨rfl, σ, rfl, ?_, rfl, rfl⟩
    intro x hx
    cases hx
  | append_singleton before r ih =>
    obtain ⟨items, last, code, hb, hrx, heq⟩ := pressureItems_concat.1 hcd
    cases heq
    rw [isChain_append] at hc
    obtain ⟨rfl, τ, hrn, hs, hm, hcn⟩ := ih (fun r hr => hn r (mem_append_left _ hr)) hc.1 hb
    have hown := own_of_chain fun p hp => hc.2.2 p hp r rfl
    obtain ⟨τ', hr', hs', hm', hc'⟩ := reducedPressureItems_keeps (hn r (mem_append_right _ mem_cons_self)) hs hown hrx
    refine ⟨?_, τ', by rw [runItems_append, hrn, Option.bind_some, hr'], hs', hm'.trans hm, hc'.trans hcn⟩
    rw [(reducedPressureItems_eq_ok hrx).1, colliderItems_next]
    simp [passedOn, colliderItems_next]

/-- A memory that holds concentrations and nothing else. -/
def concentrationsOnly (c : ℕ → ℝ) : Memory
  | .cell _ (some i) => c i.toNat
  | _ => 0

lemma exists_weighted_ne_zero {efficiencies : List (ℕ × Exact)} (hn : (efficiencies.map (·.1)).Nodup)
    (hne : excessOf efficiencies ≠ []) : ∃ c, weighted c (excessOf efficiencies) ≠ 0 := by
  have hnd := nodup_excessOf hn
  have he : ∀ t ∈ excessOf efficiencies, t.2.toReal ≠ 0 := by
    simp only [excessOf, mem_map, mem_filter]
    rintro _ ⟨t, ⟨-, ht⟩, rfl⟩
    simpa [sub_eq_zero] using ht
  obtain ⟨t, l, heq⟩ := exists_cons_of_ne_nil hne
  rw [heq] at hnd he ⊢
  rw [map_cons, nodup_cons] at hnd
  refine ⟨fun s => if s = t.1 then 1 else 0, ?_⟩
  have hr : weighted (fun s => if s = t.1 then 1 else 0) l = 0 := by
    refine sum_eq_zero fun x hx => ?_
    obtain ⟨u, hu, rfl⟩ := mem_map.1 hx
    have hut : u.1 ≠ t.1 := fun hut => hnd.1 (hut ▸ mem_map_of_mem hu)
    simp [hut]
  rw [weighted_cons, hr]
  simpa using he t mem_cons_self

/-- After reactions of which none takes over excesses, the next one finds its own concentration unless it does. -/
lemma findsOwn_iff (hn : ∀ p ∈ before ++ [r], (p.efficiencies.map (·.1)).Nodup)
    (hch : before.IsChain fun p r => ¬TakesOver p r)
    (hcd : pressureItems before = .ok out) : FindsOwn before r ↔ ∀ p ∈ before.getLast?, ¬TakesOver p r := by
  obtain ⟨items, last⟩ := out
  have hb := fun p hp => hn p (mem_append_left _ hp)
  have hr := hn r (mem_append_right _ mem_cons_self)
  constructor
  · rintro ⟨items', last', hc', hf⟩ p hp ht
    cases hcd.symm.trans hc'
    obtain ⟨c, hc⟩ := exists_weighted_ne_zero (hb p (mem_of_getLast? hp)) ht.1.2
    obtain ⟨rfl, τ, hrn, hs, hm, hcn⟩ := pressureItems_keeps hb hch hcd (concentrationsOnly c)
    obtain ⟨τ', hr', htm⟩ := hf (concentrationsOnly c)
    have hl : passedOn before = some (excessOf p.efficiencies) := by
      have hls : p.efficiencies ≠ [] := fun hnl => ht.1.2 (by rw [hnl]; rfl)
      rw [passedOn, hp, Option.bind_some, colliderItems_next, if_pos ⟨ht.1.1, hls⟩]
    have hi : Inherits (passedOn before) r := (takesOver_iff.1 ⟨p, hp, ht⟩).1
    rw [runItems_append, hrn, Option.bind_some, colliderItems_run hs hr, if_pos hi] at hr'
    cases hr'
    rw [setVar_self, (hs _ hl).2, hm, hcn, colliderConcentration, ht.2.1, ← weighted_excessOf,
      ht.2.2.2, weighted_nil] at htm
    have hrw : (concentrationsOnly c).row "conc" = c := rfl
    exact hc (by simpa [hrw] using htm)
  · intro hnn
    refine ⟨items, last, hcd, fun σ => ?_⟩
    obtain ⟨rfl, τ, hrn, hs, hm, hcn⟩ := pressureItems_keeps hb hch hcd σ
    have hcl := colliderItems_own hr hs (own_of_chain hnn)
    exact ⟨_, by rw [runItems_append, hrn, Option.bind_some, hcl], by simp [hm, hcn]⟩

/-- Each reaction finds the concentration of its own colliders if and only if none whose efficiencies are
all one comes right after one with other efficiencies. -/
theorem collider_concentrations (hn : ∀ r ∈ reactions, (r.efficiencies.map (·.1)).Nodup)
    {out : List (Item Exact) × Option (Excess Exact)} (hcode : pressureItems reactions = .ok out) :
    (∀ before r, before ++ [r] <+: reactions → FindsOwn before r) ↔ reactions.IsChain fun p r => ¬TakesOver p r := by
  induction reactions using List.reverseRecOn generalizing out with
  | nil => simp
  | append_singleton before r ih =>
    obtain ⟨items, last, code, hbefore, -, -⟩ := pressureItems_concat.1 hcode
    have hiff := ih (fun p hp => hn p (mem_append_left _ hp)) hbefore
    rw [isChain_append, ← hiff]
    constructor
    · intro hall
      have hearlier : ∀ before' r', before' ++ [r'] <+: before → FindsOwn before' r' :=
        fun before' r' h => hall before' r' (h.trans (prefix_append before [r]))
      refine ⟨hearlier, by simp, ?_⟩
      have hown := (findsOwn_iff hn (hiff.1 hearlier) hbefore).1 (hall before r prefix_rfl)
      simpa using hown
    · rintro ⟨hearlier, -, hlast⟩ before' r' h
      rcases prefix_concat_iff.1 h with heq | h
      · obtain ⟨rfl, hr⟩ := append_inj' heq rfl
        cases hr
        exact (findsOwn_iff hn (hiff.1 hearlier) hbefore).2 (by simpa using hlast)
      · exact hearlier before' r' h

def withEfficiency (efficiency : Exact) : Reaction ℕ Exact :=
  { Reaction.elementary false [0] [.count 1] [1] [.count 1] (.measure 1) (.count 0) (.count 0) with
    falloff := true
    low := [.measure 1, .count 0, .count 0]
    efficiencies := [(0, efficiency)] }

/-- An efficiency of two and one of one: the second reaction finds its own concentration only if it comes first. -/
theorem efficiency_two_then_one :
    (∀ before r, before ++ [r] <+: [withEfficiency (.measure 1), withEfficiency (.measure 2.0)] → FindsOwn before r) ∧
      ¬∀ before r, before ++ [r] <+: [withEfficiency (.measure 2.0), withEfficiency (.measure 1)] → FindsOwn before r := by
  have hcode : ∀ last x, ∃ code, reducedPressureItems last (withEfficiency x) = .ok code := by
    intro last x
    let b := Exact.count 0 - Exact.count 0
    obtain ⟨e, he, -⟩ := Rate.arrhenius_ok (A := .measure (1 / 1)) (by simp) b b
    have hdiv : Arithmetic.div (Exact.measure 1) (Exact.measure 1) = .ok (.measure (1 / 1)) := Exact.div_ok one_ne_zero
    have hratio : limitRatio (withEfficiency x) = .ok (b, b, e) := by
      change (do
        let A ← Arithmetic.div (Exact.measure 1) (Exact.measure 1)
        let e ← Rate.arrhenius A b b
        return (b, b, e)) = _
      rw [hdiv, ok_bind, he]
      rfl
    exact ⟨_, by simp only [reducedPressureItems, hratio]; rfl⟩
  have hboth : ∀ x y, ∃ out, pressureItems [withEfficiency x, withEfficiency y] = .ok out := by
    intro x y
    obtain ⟨first, hfirst⟩ := hcode none x
    obtain ⟨second, hsecond⟩ := hcode first.2 y
    exact ⟨_, by simp only [pressureItems, foldlM_cons, foldlM_nil, hfirst, hsecond, ok_bind, pure_bind]; rfl⟩
  have hn : ∀ x y, ∀ r ∈ [withEfficiency x, withEfficiency y], (r.efficiencies.map (·.1)).Nodup := by
    simp [withEfficiency]
  have hexcess : excessOf (withEfficiency (.measure 1)).efficiencies = [] ∧
      excessOf (withEfficiency (.measure 2.0)).efficiencies ≠ [] := by
    norm_num [excessOf, withEfficiency]
  obtain ⟨out, hout⟩ := hboth (.measure 1) (.measure 2.0)
  obtain ⟨out', hout'⟩ := hboth (.measure 2.0) (.measure 1)
  rw [collider_concentrations (hn _ _) hout, collider_concentrations (hn _ _) hout', isChain_pair, isChain_pair]
  exact ⟨fun h => h.1.2 hexcess.1, fun h => h ⟨⟨rfl, hexcess.2⟩, rfl, cons_ne_nil _ _, hexcess.1⟩⟩

end

end Kinetics.Jacobian
