import Kinetics.Proofs.RateLaw
import Kinetics.Proofs.SpeciesDerivative
/-!
# Temperature derivatives of equilibrium constants

The Jacobian code first stores, for every species in an equilibrium, the derivative of the
exponent of one mole in `dBdT`, one conditional for each midpoint temperature. The
derivative of an equilibrium constant then adds up stored entries. `equilibriumSlopeItems_run`
says what is stored and `equilibriumSlope_sum` what is added up.
-/

open List

namespace Kinetics.Jacobian

open Code Rate

noncomputable section

/-! ## One species -/

lemma gibbsSlope_value (p : Nasa Exact) (σ : Memory) : (gibbsSlope p).value σ = some (moleSlope p (σ.var "T")) := by
  have hT := Factor.var (σ := σ) "T"
  have hf := Factor.group (value_add (Factor.full (p.a1 - Arithmetic.unit)).value
    ((Factor.full p.a6).term.div hT))
  have hi := Factor.group (value_add (Factor.full (Arithmetic.part p.a4 4)).value
    ((Factor.full (Arithmetic.part p.a5 5)).term.mul hT.term))
  have ho := Factor.group (value_add (Factor.full (Arithmetic.part p.a3 3)).value (hT.term.mul hi.term))
  have hs := value_add (value_add (hf.term.div hT).value (Factor.full (Arithmetic.part p.a2 2)).term)
    (hT.term.mul ho.term)
  simp only [Exact.toReal_sub, Exact.toReal_unit, Exact.toReal_part] at hs
  exact hs

/-! ## Species by midpoint -/

section Groups
variable {sp : List (Species Exact)} {xs : List ℕ} {groups : List (Exact × List ℕ)}

lemma mem_groupByMidpoint (groups : List (Exact × List ℕ)) (midpoint : Exact) (s t : ℕ) (x : ℝ) :
    (∃ g ∈ groupByMidpoint groups midpoint s, g.1.toReal = x ∧ t ∈ g.2) ↔
      (∃ g ∈ groups, g.1.toReal = x ∧ t ∈ g.2) ∨ midpoint.toReal = x ∧ t = s := by
  unfold groupByMidpoint
  split
  · next ha =>
    simp only [any_eq_true, Exact.eq_iff] at ha
    obtain ⟨g₀, h₀, hm⟩ := ha
    simp only [mem_map, Exact.eq_iff]
    constructor
    · rintro ⟨_, ⟨g, hg, rfl⟩, hx, ht⟩
      by_cases heq : g.1.toReal = midpoint.toReal
      · rw [if_pos heq] at hx ht
        rcases mem_append.1 ht with ht | ht
        · exact .inl ⟨g, hg, hx, ht⟩
        · exact .inr ⟨heq ▸ hx, mem_singleton.1 ht⟩
      · rw [if_neg heq] at hx ht
        exact .inl ⟨g, hg, hx, ht⟩
    · rintro (⟨g, hg, hx, ht⟩ | ⟨hx, rfl⟩)
      · refine ⟨_, ⟨g, hg, rfl⟩, ?_⟩
        split
        · exact ⟨hx, mem_append_left _ ht⟩
        · exact ⟨hx, ht⟩
      · exact ⟨_, ⟨g₀, h₀, rfl⟩, by rw [if_pos hm]; exact ⟨hm.trans hx, by simp⟩⟩
  · simp [or_and_right, exists_or]

/-- The species `xs` are spread over groups that each have the midpoint of all their members. -/
def Grouped (species : List (Species Exact)) (xs : List ℕ) (groups : List (Exact × List ℕ)) : Prop :=
  ∀ s x, (∃ g ∈ groups, g.1.toReal = x ∧ s ∈ g.2) ↔ s ∈ xs ∧ (memberAt species s).midpoint.toReal = x

lemma Grouped.add (h : Grouped sp xs groups) (s : ℕ) :
    Grouped sp (xs ++ [s]) (groupByMidpoint groups (memberAt sp s).midpoint s) := by
  intro t x
  rw [mem_groupByMidpoint, h, mem_append, mem_singleton, or_and_right]
  refine or_congr_right ⟨?_, ?_⟩
  · rintro ⟨hx, rfl⟩
    exact ⟨rfl, hx⟩
  · rintro ⟨rfl, hx⟩
    exact ⟨hx, rfl⟩

lemma grouped_fold (rest : List ℕ) (h : Grouped sp xs groups) (hm : ∀ s ∈ rest, s < sp.length) :
    ∃ all, rest.foldlM (fun groups s => do
        return groupByMidpoint groups (← entryAt sp s).midpoint s) groups = .ok all ∧
      Grouped sp (xs ++ rest) all := by
  induction rest generalizing xs groups with
  | nil => exact ⟨groups, rfl, by simpa using h⟩
  | cons s rest ih =>
    obtain ⟨all, ha, hg⟩ := ih (h.add s) fun t ht => hm t (mem_cons_of_mem _ ht)
    refine ⟨all, ?_, by simpa using hg⟩
    rw [foldlM_cons, entryAt_eq_ok.2 (getElem?_memberAt (hm s mem_cons_self))]
    exact ha

def groupItem (species : List (Species Exact)) (g : Exact × List ℕ) : Item Exact :=
  let steps := fun range : Species Exact → Nasa Exact => (g.2.mergeSort (· ≤ ·)).map fun s =>
    Step.assign 4 (.cell "dBdT" (s : ℕ)) .set (gibbsSlope (range (memberAt species s)))
  .split 2 (.atMost "T" .shortest g.1) (steps (·.low)) (steps (·.high))

lemma groupItem_run (g : Exact × List ℕ) (hg : ∀ s ∈ g.2, (memberAt sp s).midpoint.toReal = g.1.toReal) (σ : Memory) :
    ∃ τ, (groupItem sp g).run σ = some τ ∧
      Stored "dBdT" g.2 (fun s => speciesSlope (memberAt sp s) (σ.var "T")) σ τ := by
  have hs : ∀ range : Species Exact → Nasa Exact, (∀ s ∈ g.2, moleSlope (range (memberAt sp s)) (σ.var "T") =
      speciesSlope (memberAt sp s) (σ.var "T")) → ∃ τ, runSteps σ ((g.2.mergeSort (· ≤ ·)).map fun s =>
        .assign 4 (.cell "dBdT" (s : ℕ)) .set (gibbsSlope (range (memberAt sp s)))) = some τ ∧
      Stored "dBdT" g.2 (fun s => speciesSlope (memberAt sp s) (σ.var "T")) σ τ := by
    intro range hr
    have hv : ∀ s ∈ g.2.mergeSort (· ≤ ·), ∀ τ, OnlyIn "dBdT" σ τ → (gibbsSlope (range (memberAt sp s))).value τ =
        some (speciesSlope (memberAt sp s) (σ.var "T")) := fun s hs τ ho => by
      rw [gibbsSlope_value, ho.var, hr s (mem_mergeSort.1 hs)]
    obtain ⟨τ, hτ, hst⟩ := stored_assigns "dBdT" 4 (f := id) (v := fun s => speciesSlope (memberAt sp s) (σ.var "T")) hv
    exact ⟨τ, hτ, hst.congr fun s => by simp⟩
  simp only [groupItem, Item.run, Condition.holds, decide_eq_true_eq]
  by_cases hT : σ.var "T" ≤ g.1.toReal
  · rw [if_pos hT]
    exact hs (·.low) fun s hm => by rw [speciesSlope, hg s hm, if_pos hT]
  · rw [if_neg hT]
    exact hs (·.high) fun s hm => by rw [speciesSlope, hg s hm, if_neg hT]

lemma groupItems_run (groups : List (Exact × List ℕ))
    (hg : ∀ g ∈ groups, ∀ s ∈ g.2, (memberAt sp s).midpoint.toReal = g.1.toReal) (σ : Memory) :
    ∃ τ, runItems σ (groups.map (groupItem sp)) = some τ ∧
      Stored "dBdT" (groups.flatMap (·.2)) (fun s => speciesSlope (memberAt sp s) (σ.var "T")) σ τ := by
  refine stored_items "dBdT" (groupItem sp) (·.2) fun g hgm τ ho => ?_
  have hr := groupItem_run g (hg g hgm) τ
  rwa [ho.var] at hr

end Groups

/-! ## All species in equilibria -/

/-- The locations whose content the stored derivatives do not change. -/
def SameOutsideSlopes (σ τ : Memory) : Prop := ∀ a i, a ≠ "dBdT" → τ (.cell a i) = σ (.cell a i)

variable {rs : List (Reaction ℕ Exact)}

/-- The code before the reaction loop stores the derivative for every species in an equilibrium. -/
lemma equilibriumSlopeItems_run {l : Language} (hl : l = .c ∨ l = .cuda) {sp : List (Species Exact)}
    (hm : ∀ s ∈ equilibriumSpecies rs, s < sp.length) :
    ∃ items, equilibriumSlopeItems l sp rs = .ok items ∧ ∀ σ : Memory, ∃ τ,
      runItems σ items = some τ ∧ SameOutsideSlopes σ τ ∧
      ∀ s ∈ equilibriumSpecies rs, τ.row "dBdT" s = speciesSlope (memberAt sp s) (σ.var "T") := by
  obtain ⟨groups, hgp, hgr⟩ := grouped_fold (equilibriumSpecies rs) (fun s x => by simp : Grouped sp [] []) hm
  have hi : (groups.mapM fun (g : Exact × List ℕ) => do
      let steps := fun (range : Species Exact → Nasa Exact) => (g.2.mergeSort (· ≤ ·)).mapM fun s => do
        return Step.assign 4 (.cell "dBdT" s) .set (gibbsSlope (range (← entryAt sp s)))
      return Item.split 2 (.atMost "T" .shortest g.1) (← steps (·.low)) (← steps (·.high))) =
      Except.ok (groups.map (groupItem sp)) := by
    refine mapM_eq_ok_map fun g hg => ?_
    have hst : ∀ range : Species Exact → Nasa Exact, ((g.2.mergeSort (· ≤ ·)).mapM fun s => do
        return Step.assign 4 (.cell "dBdT" s) .set (gibbsSlope (range (← entryAt sp s)))) =
        Except.ok ((g.2.mergeSort (· ≤ ·)).map fun s =>
          Step.assign 4 (.cell "dBdT" (s : ℕ)) .set (gibbsSlope (range (memberAt sp s)))) := by
      intro range
      refine mapM_eq_ok_map fun s hs => ?_
      have hs := hm s ((hgr s _).1 ⟨g, hg, rfl, mem_mergeSort.1 hs⟩).1
      rw [entryAt_eq_ok.2 (getElem?_memberAt hs)]
      rfl
    dsimp only
    rw [hst, ok_bind, hst]
    rfl
  -- the declaration only names the array, or points it to its place
  obtain ⟨declaration, hd, hdc⟩ : ∃ declaration : List (Step Exact),
      equilibriumSlopeItems l sp rs = .ok (declaration.map .step ++ groups.map (groupItem sp)) ∧
      ∀ σ : Memory, ∃ τ, runSteps σ declaration = some τ ∧ SameOutsideSlopes σ τ := by
    have hk : ∀ σ : Memory, SameOutsideSlopes σ σ := fun σ a i _ => rfl
    unfold equilibriumSlopeItems
    split
    · rcases hl with rfl | rfl
      · exact ⟨[.declare 2 "double" ["dBdT"] (some sp.length) none .semicolon],
          by simp only [hgp, hi, ok_bind, beq_self_eq_true, if_true]; rfl, fun σ => ⟨σ, rfl, hk σ⟩⟩
      · refine ⟨[.declare 2 "double * __restrict__" ["dBdT"] none (some (.var "d_mem->dBdT")) .semicolon],
          by simp only [hgp, hi, ok_bind]; rfl, fun σ => ⟨_, rfl, fun a i ha => ?_⟩⟩
        simp [ha]
    · exact ⟨[], by simp only [hgp, hi, ok_bind]; rfl, fun σ => ⟨σ, rfl, hk σ⟩⟩
  refine ⟨_, hd, fun σ => ?_⟩
  obtain ⟨σ₁, hσ₁, hsm⟩ := hdc σ
  have hT : σ₁.var "T" = σ.var "T" := hsm "T" none (by decide)
  obtain ⟨τ, hτ, hsr⟩ := groupItems_run groups (fun g hg s hs => ((hgr s _).1 ⟨g, hg, rfl, hs⟩).2) σ₁
  refine ⟨τ, by rw [runItems_append, runItems_steps, hσ₁, Option.bind_some, hτ],
    fun a i ha => (hsr.other _ fun s _ => by simp [ha]).trans (hsm a i ha), fun s hs => ?_⟩
  obtain ⟨g, hg, -, hsg⟩ := (hgr s _).2 ⟨hs, rfl⟩
  rw [hsr.entry s (mem_flatMap.2 ⟨g, hg, hsg⟩), hT]

lemma mem_equilibriumSpecies {r : Reaction ℕ Exact} (hr : r ∈ rs)
    (hrv : r.reversible = true) (he : r.reverse = []) {s : ℕ} (hs : s ∈ participants r) :
    s ∈ equilibriumSpecies rs := by
  rw [mem_participants] at hs
  rw [equilibriumSpecies, mem_eraseDups, mem_flatMap]
  exact ⟨r, mem_filter.2 ⟨hr, by simp [hrv, he]⟩, mem_append.2 hs⟩

/-! ## Sums of entries -/

section Sums
variable {σ : Memory} {r : Reaction ℕ Exact}

lemma addEquilibriumSlope_value {sum : Option (Expr Exact)} {x : ℝ} (hs : SumOr σ sum x) (nu : Exact) (s : ℕ) :
    (addEquilibriumSlope (sum.getD .hole) nu s).value σ = some (x + nu.toReal * σ.row "dBdT" s) := by
  have hc := (Factor.cell (σ := σ) "dBdT" s).term
  simp only [addEquilibriumSlope, Exact.eq_iff, Exact.toReal_one, Exact.toReal_neg, Exact.isPositive_iff]
  split_ifs with ho hm hp
  · rw [ho, one_mul]
    exact value_getD_add hs hc
  · rw [hm, neg_one_mul, ← sub_eq_add_neg]
    exact value_getD_sub hs hc
  · exact value_getD_add hs ((Factor.plain (Arithmetic.pointed nu)).term.mul hc)
  · have h := value_getD_sub hs ((Factor.plain (Arithmetic.pointed (Arithmetic.abs nu))).term.mul hc)
    rwa [Exact.toReal_pointed, Exact.toReal_abs, abs_of_nonpos (not_lt.1 hp), neg_mul, sub_neg_eq_add] at h

lemma firstEquilibriumSlope_value (nu : Exact) (s : ℕ) :
    (firstEquilibriumSlope nu s).value σ = some (nu.toReal * σ.row "dBdT" s) := by
  have hc := Factor.cell (σ := σ) "dBdT" s
  simp only [firstEquilibriumSlope, Exact.eq_iff, Exact.toReal_one, Exact.toReal_neg]
  split_ifs with ho hm
  · rw [ho, one_mul]
    exact hc.value
  · rw [hm, neg_one_mul]
    exact (hc.neg rfl).value
  · exact ((Factor.plain (Arithmetic.pointed nu)).term.mul hc.term).value

def productSum : List (ℕ × Exact) → Option (Expr Exact)
  | [] => none
  | t :: rest => some (rest.foldl (fun sum u => addEquilibriumSlope sum u.2 u.1) (firstEquilibriumSlope t.2 t.1))

lemma reactantSum_sum (net : List (ℕ × Exact)) {start : Option (Expr Exact)} {x : ℝ} (hs : SumOr σ start x) :
    SumOr σ (net.foldl (fun sum t => some (addEquilibriumSlope (sum.getD .hole) t.2 t.1)) start)
      (x + (net.map fun t => t.2.toReal * σ.row "dBdT" t.1).sum) := by
  induction net generalizing start x with
  | nil => simpa using hs
  | cons t rest ih =>
    rw [foldl_cons, map_cons, sum_cons, ← add_assoc]
    exact ih (addEquilibriumSlope_value hs t.2 t.1)

lemma productSum_sum (net : List (ℕ × Exact)) (σ : Memory) :
    SumOr σ (productSum net) (net.map fun t => t.2.toReal * σ.row "dBdT" t.1).sum := by
  cases net with
  | nil => rfl
  | cons t rest =>
    have h := @reactantSum_sum σ rest (some _) _ (firstEquilibriumSlope_value t.2 t.1)
    rwa [List.foldl_hom some fun _ _ => rfl] at h

lemma reactantSum_isSome (net : List (ℕ × Exact)) (start : Option (Expr Exact)) :
    net.foldl (fun sum t => some (addEquilibriumSlope (sum.getD .hole) t.2 t.1)) start = none ↔
      net = [] ∧ start = none := by
  induction net generalizing start with
  | nil => simp
  | cons t rest ih =>
    rw [foldl_cons, ih]
    simp

/-- The reactants that are no products, with their net coefficients. -/
def usedUp (r : Reaction ℕ Exact) : List (ℕ × Exact) :=
  (r.reactants.filter fun s => !r.products.contains s).map fun s => (s, r.change s)

lemma equilibriumSlope_eq (hr : Side r.reactants r.reactantNu) (hp : Side r.products r.productNu) :
    equilibriumSlope r = .ok ((usedUp r).foldl (fun sum t => some (addEquilibriumSlope (sum.getD .hole) t.2 t.1))
      (productSum (r.products.filterMap (changing r)))) := by
  have hpr : (r.products.filterMapM fun s => do
      let made ← Reaction.coefficient r.products r.productNu s
      let nu ← if r.reactants.contains s then do
          pure (made - (← Reaction.coefficient r.reactants r.reactantNu s))
        else pure made
      return if Arithmetic.isZero nu then none else some (s, nu)) =
      Except.ok (r.products.filterMap (changing r)) := by
    refine filterMapM_eq_ok_filterMap fun s hs => ?_
    obtain ⟨x, hx⟩ := coefficient_ok hp.length_eq.ge hs
    rw [hx, ok_bind, changing]
    by_cases hrc : s ∈ r.reactants
    · obtain ⟨y, hy⟩ := coefficient_ok hr.length_eq.ge hrc
      simp only [contains_iff_mem.2 hrc, if_true, hy, ok_bind, pure_ok, Reaction.change_of_both hs hrc hx hy]
      by_cases hz : (x - y).toReal = 0
      · simp only [(Exact.isZero_iff _).2 hz, if_true, (Exact.isZero_iff _).2 Exact.toReal_zero]
      · simp only [(Exact.isZero_false_iff _).2 hz, Bool.false_eq_true, if_false]
    · have hn : r.reactants.contains s = false := by simpa using hrc
      simp only [hn, Bool.false_eq_true, if_false, Reaction.change_of_product hs hrc hx]
      rfl
  have hrt : ((r.reactants.filter fun s => !r.products.contains s).mapM fun s => do
      return (s, -(← Reaction.coefficient r.reactants r.reactantNu s))) = Except.ok (usedUp r) := by
    refine mapM_eq_ok_map fun s hs => ?_
    rw [mem_filter] at hs
    obtain ⟨y, hy⟩ := coefficient_ok hr.length_eq.ge hs.1
    rw [hy, Reaction.change_of_reactant (by simpa using hs.2) hs.1 hy]
    rfl
  rw [equilibriumSlope, hpr, ok_bind, hrt, ok_bind]
  cases r.products.filterMap (changing r) <;> rfl

lemma equilibriumSlope_none (hr : Side r.reactants r.reactantNu) (hp : Side r.products r.productNu)
    (h : equilibriumSlope r = .ok none) : Balanced r := by
  rw [equilibriumSlope_eq hr hp] at h
  obtain ⟨hu, hm⟩ := (reactantSum_isSome _ _).1 (Except.ok.inj h)
  have hpr : r.products.filterMap (changing r) = [] := by
    cases hn : r.products.filterMap (changing r) with
    | nil => rfl
    | cons t rest => simp [hn, productSum] at hm
  rw [filterMap_changing_eq_nil] at hpr
  rw [usedUp, map_eq_nil_iff, filter_eq_nil_iff] at hu
  intro s hs
  rcases (mem_participants r).1 hs with hs | hs
  · exact hpr s (by simpa using hu s hs)
  · exact hpr s hs

/-- The sum of the entries of all participants, as often as each of them changes. -/
lemma equilibriumSlope_sum (hr : Side r.reactants r.reactantNu) (hp : Side r.products r.productNu) :
    ∃ slope, equilibriumSlope r = .ok slope ∧ ∀ σ : Memory,
      SumOr σ slope ((participants r).map fun s => (r.change s).toReal * σ.row "dBdT" s).sum := by
  refine ⟨_, equilibriumSlope_eq hr hp, fun σ => ?_⟩
  have h := reactantSum_sum (usedUp r) (productSum_sum (r.products.filterMap (changing r)) σ)
  rw [sum_changing r (fun s => σ.row "dBdT" s)] at h
  rw [((participants_perm r hr.nodup hp.nodup).map _).sum_eq, map_append, sum_append]
  rwa [usedUp, map_map] at h

end Sums

end

end Kinetics.Jacobian
