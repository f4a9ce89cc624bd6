import Kinetics.Proofs.Vocabulary
/-!
# Code that runs in a used buffer

The matrix that a function fills may hold anything at first. A location whose first update is a
plain assignment forgets what it held; one whose first update adds or subtracts keeps it as an
offset. `perform_shift` says this for all locations at once: if no statement reads an entry of
the matrix that is not assigned yet and differs, two runs differ afterwards just where they
differed at first and nothing has been assigned.
-/

open List

namespace Kinetics.Code

noncomputable section

/-! ## Updates -/

/-- An entry of the matrix, or of the row of the last species, which is kept apart. -/
def Place.inMatrix : Place → Bool
  | .cell array (some _) => array == "jac" || array == "J_nplusjplus"
  | .cell _ none | .slot _ => false

def Step.updates : Step Exact → List (Place × Form)
  | .assign _ target form _ => target.location.toList.map (·, form)
  | .declare _ _ declared _ (some _) _ => declared.map (.cell · none, .set)
  | .declare _ _ _ _ none _ | .comment _ _ _ _ | .blank | .line _ | .call _ _ _ _ | .give _ _ => []

/-- The locations that an item may update, in the order of its text. -/
def Item.updates : Item Exact → List (Place × Form)
  | .step s => s.updates
  | .split _ _ below above => (below ++ above).flatMap Step.updates
  | .choice _ arms _ => arms.flatMap fun arm => arm.2.flatMap Step.updates
  | .load _ | .release _ | .consult _ => []

/-- All updates of some code, in the order of its text. -/
def updates (items : List (Item Exact)) : List (Place × Form) := items.flatMap Item.updates

/-- How the first statement that updates a location does it, if there is one. -/
def firstUpdate (p : Place) (items : List (Item Exact)) : Option Form := (updates items).lookup p

variable {p : Place} {items : List (Item Exact)}

@[simp] lemma updates_append (xs ys : List (Item Exact)) : updates (xs ++ ys) = updates xs ++ updates ys :=
  flatMap_append

@[simp] lemma updates_steps (steps : List (Step Exact)) : updates (steps.map .step) = steps.flatMap Step.updates :=
  flatMap_map ..

lemma firstUpdate_append (xs ys : List (Item Exact)) :
    firstUpdate p (xs ++ ys) = (firstUpdate p xs).or (firstUpdate p ys) := by
  rw [firstUpdate, updates_append, lookup_append]
  rfl

lemma firstUpdate_eq_none : firstUpdate p items = none ↔ ∀ u ∈ updates items, u.1 ≠ p := by
  simp only [firstUpdate, lookup_eq_none_iff, bne_iff_ne]
  exact forall₂_congr fun u _ => ne_comm

variable {form : Form}

lemma mem_of_firstUpdate (h : firstUpdate p items = some form) : (p, form) ∈ updates items := by
  obtain ⟨front, back, hs, -⟩ := lookup_eq_some_iff.1 h
  exact hs ▸ mem_append_right _ mem_cons_self

/-- The first update is of the kind that all updates of the location have. -/
lemma firstUpdate_eq_some (hs : ∃ f, (p, f) ∈ updates items)
    (ha : ∀ f, (p, f) ∈ updates items → f = form) : firstUpdate p items = some form := by
  cases hfs : firstUpdate p items with
  | none =>
    obtain ⟨f, hf⟩ := hs
    exact absurd rfl (firstUpdate_eq_none.1 hfs _ hf)
  | some f => rw [ha f (mem_of_firstUpdate hfs)]

lemma Step.map_updates (s : Step Exact) : s.updates.map (·.1) = s.writes := by
  cases s with
  | assign indent target form value => simp [Step.updates, Step.writes, Function.comp_def]
  | declare indent type declared size value ending =>
    cases value <;> simp [Step.updates, Step.writes]
  | _ => rfl

lemma Item.map_updates (i : Item Exact) : i.updates.map (·.1) = i.writes := by
  cases i with
  | step s => exact s.map_updates
  | split indent condition below above =>
    simp only [Item.updates, Item.writes, map_flatMap, Step.map_updates]
  | choice indent arms closed =>
    simp only [Item.updates, Item.writes, map_flatMap, Step.map_updates]
  | _ => rfl

/-! ## Reads -/

def Expr.reads (e : Expr Exact) : List Place := e.cells.map fun c => .cell c.1 c.2

variable {e : Expr Exact}

lemma cell_mem_reads {array : String} {index : Option ℤ} :
    Place.cell array index ∈ e.reads ↔ Place.cell array index ∈ e.places := by
  unfold Expr.reads
  induction e <;> simp_all [Expr.cells, Expr.places]

/-- The locations whose contents a statement uses, its target apart. -/
def Step.reads : Step Exact → List Place
  | .assign _ _ _ value | .declare _ _ _ _ (some value) _ => value.reads
  | .declare _ _ _ _ none _ | .comment _ _ _ _ | .blank | .line _ | .call _ _ _ _ | .give _ _ => []

def Condition.read : Condition Exact → Place
  | .atMost quantity _ _ | .above quantity _ _ | .between quantity _ _ _ => .cell quantity none

def Item.reads : Item Exact → List Place
  | .step s => s.reads
  | .split _ condition below above => condition.read :: (below ++ above).flatMap Step.reads
  | .choice _ arms _ => arms.flatMap fun arm => arm.1.read :: arm.2.flatMap Step.reads
  | .load _ | .release _ | .consult _ => []

lemma Item.reads_of_steps (i : Item Exact) : ∀ s ∈ i.steps, ∀ p ∈ s.reads, p ∈ i.reads := by
  cases i <;> simp [Item.steps, Item.reads] <;> grind

lemma Item.updates_of_steps (i : Item Exact) : ∀ s ∈ i.steps, ∀ u ∈ s.updates, u ∈ i.updates := by
  cases i <;> simp [Item.steps, Item.updates] <;> grind

/-- The entries of the matrix that some code reads before it has assigned them. -/
def unsetReads (done : List (Place × Form)) : List (Item Exact) → List Place
  | [] => []
  | i :: rest => (i.reads.filter fun p => p.inMatrix && !decide ((p, .set) ∈ done)) ++
      unsetReads (done ++ i.updates) rest

lemma unsetReads_append (done : List (Place × Form)) (xs ys : List (Item Exact)) :
    unsetReads done (xs ++ ys) = unsetReads done xs ++ unsetReads (done ++ updates xs) ys := by
  induction xs generalizing done with
  | nil => simp [unsetReads, updates]
  | cons i xs ih =>
    rw [cons_append, unsetReads, unsetReads, ih, append_assoc, append_assoc]
    rfl

variable {done : List (Place × Form)}

lemma inMatrix_of_mem_unsetReads (h : p ∈ unsetReads done items) : p.inMatrix = true := by
  induction items generalizing done with
  | nil => cases h
  | cons i items ih =>
    rw [unsetReads, mem_append] at h
    exact h.elim (fun hp => (Bool.and_eq_true_iff.1 (mem_filter.1 hp).2).1) ih

lemma unsetReads_eq_nil
    (h : ∀ i ∈ items, ∀ p ∈ i.reads, p.inMatrix = true → (p, .set) ∈ done) : unsetReads done items = [] := by
  induction items generalizing done with
  | nil => rfl
  | cons i items ih =>
    rw [forall_mem_cons] at h
    rw [unsetReads, ih fun j hj p hp hm => mem_append_left _ (h.2 j hj p hp hm), append_nil, filter_eq_nil_iff]
    intro p hp hu
    simp only [Bool.and_eq_true, Bool.not_eq_true', decide_eq_false_iff_not] at hu
    exact hu.2 (h.1 p hp hu.1)

/-! ## Runs with calls -/

/-- What functions do to the memory when they are called. -/
abbrev Callees := String → List (Expr Exact) → Memory → Option Memory

/-- The functions neither read nor write the matrix. -/
structure Callees.Overlook (callees : Callees) : Prop where
  keeps : ∀ f arguments σ τ, callees f arguments σ = some τ → ∀ p, p.inMatrix = true → τ p = σ p
  ignores : ∀ f arguments σ δ, (∀ p, p.inMatrix = false → δ p = 0) →
    callees f arguments (σ + δ) = (callees f arguments σ).map (· + δ)

def Item.perform (callees : Callees) (σ : Memory) : Item Exact → Option Memory
  | .step (.call _ function _ arguments) => callees function arguments σ
  | i => i.run σ

def perform (callees : Callees) (σ : Memory) : List (Item Exact) → Option Memory
  | [] => some σ
  | i :: rest => (i.perform callees σ).bind fun τ => perform callees τ rest

variable {callees : Callees}

lemma perform_frame (hc : callees.Overlook) {σ τ : Memory}
    (hrn : perform callees σ items = some τ) (hp : p.inMatrix = true) (hn : firstUpdate p items = none) :
    τ p = σ p := by
  induction items generalizing σ with
  | nil =>
    cases hrn
    rfl
  | cons i items ih =>
    rw [perform, Option.bind_eq_some_iff] at hrn
    obtain ⟨σ₁, hf, hr⟩ := hrn
    rw [firstUpdate_eq_none, updates, flatMap_cons] at hn
    have hk : σ₁ p = σ p := by
      unfold Item.perform at hf
      split at hf
      · exact hc.keeps _ _ _ _ hf p hp
      · refine Item.run_frame hf fun hw => ?_
        rw [← Item.map_updates, mem_map] at hw
        obtain ⟨u, hu, rfl⟩ := hw
        exact hn u (mem_append_left _ hu) rfl
    rw [ih hr (firstUpdate_eq_none.2 fun u hu => hn u (mem_append_right _ hu)), hk]

/-! ## Runs from memories that differ in the matrix -/

/-- What is left of a difference after updates: assigned locations agree. -/
def clear (us : List (Place × Form)) (δ : Memory) : Memory := fun p => if (p, .set) ∈ us then 0 else δ p

lemma clear_append (us vs : List (Place × Form)) (δ : Memory) : clear (us ++ vs) δ = clear vs (clear us δ) := by
  funext p
  unfold clear
  by_cases hu : (p, Form.set) ∈ us <;> by_cases hv : (p, Form.set) ∈ vs <;> simp [hu, hv]

lemma clear_eq_self {us : List (Place × Form)} {δ : Memory} (h : ∀ u ∈ us, δ u.1 = 0) : clear us δ = δ := by
  funext p
  unfold clear
  split
  · next hp => exact (h _ hp).symm
  · rfl

/-- Entries of the matrix are updated by statements that add, subtract or assign, and outside of blocks. -/
def Item.Plain (i : Item Exact) : Prop := ∀ u ∈ i.updates, u.1.inMatrix = true →
    (∃ s, i = .step s) ∧ (u.2 = .set ∨ u.2 = .add ∨ u.2 = .subtract)

section Shift
variable {σ δ : Memory} (hδ : ∀ p, p.inMatrix = false → δ p = 0)
include hδ

lemma clear_outside (us : List (Place × Form)) : ∀ p, p.inMatrix = false → clear us δ p = 0 := by
  intro p hp
  unfold clear
  split
  · rfl
  · exact hδ p hp

lemma value_shift (h : ∀ p ∈ e.reads, δ p = 0) : e.value (σ + δ) = e.value σ := by
  have hpl : ∀ p ∈ e.places, (σ + δ) p = σ p := by
    intro p hp
    have hz : δ p = 0 := by
      cases p with
      | cell a i => exact h _ (cell_mem_reads.2 hp)
      | slot label => exact hδ _ rfl
    rw [Pi.add_apply, hz, add_zero]
  rw [Expr.value, Expr.value, read_congr hpl]

omit hδ in
lemma update_shift (form : Form) (hf : δ p = 0 ∨ form = .set ∨ form = .add ∨ form = .subtract) (v : ℝ) :
    Function.update (σ + δ) p (form.update ((σ + δ) p) v) =
      Function.update σ p (form.update (σ p) v) + clear [(p, form)] δ := by
  funext q
  by_cases hq : q = p
  · subst hq
    simp only [Function.update_self, Pi.add_apply, clear, mem_singleton, Prod.mk.injEq, true_and]
    obtain hz | rfl | rfl | rfl := hf
    · simp [hz]
    · simp [Form.update]
    · simp only [Form.update, reduceCtorEq, if_false]
      ring
    · simp only [Form.update, reduceCtorEq, if_false]
      ring
  · simp [hq, clear]

/-- What is left of the difference between two memories. -/
abbrev Differ (δ σ τ : Memory) : Prop := τ = σ + δ

lemma run_shift {s : Step Exact} (hr : ∀ p ∈ s.reads, δ p = 0)
    (hf : ∀ u ∈ s.updates, u.1.inMatrix = true → u.2 = .set ∨ u.2 = .add ∨ u.2 = .subtract) :
    Option.Rel (Differ (clear s.updates δ)) (s.run σ) (s.run (σ + δ)) := by
  have hs : σ + δ = σ + clear [] δ := by rw [clear_eq_self (by simp)]
  cases s with
  | assign indent target form value =>
    refine rel_run_assign indent form rfl (value_shift hδ hr) fun p v hp => ?_
    simp only [Step.updates, hp, Option.toList_some, map_singleton] at hf ⊢
    refine update_shift form ?_ v
    cases hm : p.inMatrix with
    | false => exact .inl (hδ p hm)
    | true => exact .inr (hf (p, form) mem_cons_self hm)
  | declare indent type declared size value ending =>
    cases value with
    | none => exact .some hs
    | some value =>
      have hc : clear (declared.map fun name => (.cell name none, .set)) δ = δ := clear_eq_self fun u hu => by
          obtain ⟨name, -, rfl⟩ := mem_map.1 hu
          exact hδ _ rfl
      rw [Step.updates, hc]
      refine rel_run_declare indent type size ending (value_shift hδ hr) rfl ?_
      rintro name - σ _ v rfl
      have hn := hδ (.cell name none) rfl
      have hus := update_shift (σ := σ) .set (.inl hn) v
      rwa [clear_eq_self (by simpa using hn)] at hus
  | comment | blank | line => exact .some hs
  | call | give => exact .none

/-- Blocks that neither read nor update an entry of the matrix that differs. -/
lemma simulates_shift : Simulates (Differ δ) id (fun s => (∀ p ∈ s.reads, δ p = 0) ∧ ∀ u ∈ s.updates, u.1.inMatrix = false)
    fun _ => True where
  step s hs σ τ h := by
    subst h
    have hrs := run_shift (σ := σ) hδ hs.1 fun u hu hm => absurd hm (by rw [hs.2 u hu]; decide)
    rwa [clear_eq_self fun u hu => hδ _ (hs.2 u hu)] at hrs
  condition c _ σ τ h := by
    subst h
    cases c <;> simp only [Condition.holds, Pi.add_apply, hδ (.cell _ none) rfl, add_zero]

variable {i : Item Exact}

lemma Item.run_shift (hp : i.Plain) (hr : ∀ p ∈ i.reads, δ p = 0) :
    Option.Rel (Differ (clear i.updates δ)) (i.run σ) (i.run (σ + δ)) := by
  by_cases hi : ∃ s, i = .step s
  · obtain ⟨s, rfl⟩ := hi
    exact Code.run_shift hδ hr fun u hu hm => (hp u hu hm).2
  · have hf : ∀ u ∈ i.updates, u.1.inMatrix = false := by
      intro u hu
      by_contra hm
      exact hi (hp u hu (by simpa using hm)).1
    have hrs := (simulates_shift hδ).item (σ := σ)
      (fun s hs => ⟨fun p hp => hr p (i.reads_of_steps s hs p hp), fun u hu => hf u (i.updates_of_steps s hs u hu)⟩)
      (fun _ _ => trivial) rfl
    rw [Item.translate_id] at hrs
    rwa [clear_eq_self fun u hu => hδ _ (hf u hu)]

lemma Item.perform_shift (hc : callees.Overlook) (hp : i.Plain) (hr : ∀ p ∈ i.reads, δ p = 0) :
    Option.Rel (Differ (clear i.updates δ)) (i.perform callees σ) (i.perform callees (σ + δ)) := by
  unfold Item.perform
  split
  · rw [hc.ignores _ _ _ _ hδ]
    cases callees _ _ σ with
    | none => exact .none
    | some τ => exact .some rfl
  · exact Item.run_shift hδ hp hr

/-- Two runs that start with different contents of the matrix. If a difference is nowhere read before it is
assigned, both runs end together, and the difference is gone just where something has been assigned. -/
lemma perform_shift (hc : callees.Overlook) (hpl : ∀ i ∈ items, i.Plain) (hr : ∀ p ∈ unsetReads [] items, δ p = 0) :
    Option.Rel (Differ (clear (updates items) δ)) (perform callees σ items) (perform callees (σ + δ) items) := by
  -- after some items the difference has been cleared of their updates
  have hrn : ∀ (done : List (Place × Form)) (rest : List (Item Exact)) (σ τ : Memory), (∀ i ∈ rest, i.Plain) →
      (∀ p ∈ unsetReads done rest, δ p = 0) → Differ (clear done δ) σ τ →
      Option.Rel (Differ (clear (done ++ updates rest) δ)) (perform callees σ rest) (perform callees τ rest) := by
    intro done rest
    induction rest generalizing done with
    | nil =>
      intro σ τ _ _ h
      exact .some (by simpa [updates] using h)
    | cons i rest ih =>
      rintro σ _ hpl hr rfl
      rw [forall_mem_cons] at hpl
      rw [unsetReads, forall_mem_append] at hr
      have hrd : ∀ p ∈ i.reads, clear done δ p = 0 := by
        intro p hp
        unfold clear
        split
        · rfl
        · next hs =>
          cases hm : p.inMatrix with
          | false => exact hδ p hm
          | true => exact hr.1 p (mem_filter.2 ⟨hp, by simp [hm, hs]⟩)
      have hi := Item.perform_shift (σ := σ) (clear_outside hδ done) hc hpl.1 hrd
      rw [← clear_append] at hi
      refine rel_bind hi fun σ₁ τ₁ h₁ => ?_
      have hrs := ih (done ++ i.updates) σ₁ τ₁ hpl.2 hr.2 h₁
      rwa [append_assoc] at hrs
  exact hrn [] items σ _ hpl hr (by rw [clear_eq_self (by simp)])

end Shift

/-- The memory of a second run: the matrix is as a run has left it, all else as it was before. -/
def reused (σ τ : Memory) : Memory := fun p => if p.inMatrix then τ p else σ p

/-- A second run into the same matrix. If only entries that are never updated are read before they are assigned,
it gives the same, except that entries that are never assigned change by the same amount again. -/
lemma perform_reused (hc : callees.Overlook) (hpl : ∀ i ∈ items, i.Plain)
    (hr : ∀ p ∈ unsetReads [] items, firstUpdate p items = none) {σ τ : Memory}
    (hrn : perform callees σ items = some τ) : ∃ υ, perform callees (reused σ τ) items = some υ ∧
      ∀ p, υ p = τ p + if p.inMatrix = true ∧ (p, .set) ∉ updates items then τ p - σ p else 0 := by
  set δ : Memory := fun p => if p.inMatrix then τ p - σ p else 0 with hδ
  have ho : ∀ p, p.inMatrix = false → δ p = 0 := fun p hp => by simp [hδ, hp]
  have hs : reused σ τ = σ + δ := by
    funext p
    cases hp : p.inMatrix <;> simp [reused, hδ, hp]
  have hz : ∀ p ∈ unsetReads [] items, δ p = 0 := fun p hp => by
    have hm := inMatrix_of_mem_unsetReads hp
    have hk := perform_frame hc hrn hm (hr p hp)
    simp [hδ, hm, hk]
  obtain ⟨υ, hυ, rfl⟩ := exists_of_rel (perform_shift ho hc hpl hz) hrn
  refine ⟨_, hs ▸ hυ, fun p => ?_⟩
  rw [Pi.add_apply, clear]
  by_cases hst : (p, Form.set) ∈ updates items <;> cases hp : p.inMatrix <;> simp [hδ, hst, hp]

end

end Kinetics.Code
