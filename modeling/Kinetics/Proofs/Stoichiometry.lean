import Kinetics.Proofs.Exact
import Kinetics.Proofs.Outcome
import Kinetics.Rate.Equilibrium
/-!
# Stoichiometry

The two sides of an equation and the net coefficients. A reaction whose lists are
long enough has a net coefficient for every species, and its participants are the
species of both sides, each once.
-/

open List

namespace Kinetics

noncomputable section

/-! ## One side of an equation -/

/-- One side of an equation: every species once, with a coefficient. -/
structure Side (species : List ℕ) (nu : List Exact) : Prop where
  length_eq : nu.length = species.length
  nodup : species.Nodup

variable {sp : List ℕ} {nu : List Exact}

lemma forall₂_zipIdx (h : nu.length = sp.length) :
    List.Forall₂ (fun (p : ℕ × ℕ) (t : ℕ × Exact) => p.1 = t.1 ∧ nu[p.2]? = some t.2) sp.zipIdx (sp.zip nu) := by
  rw [forall₂_iff_get]
  refine ⟨by simp [h], fun i h₁ h₂ => ?_⟩
  have hi : i < nu.length := by simpa [h] using h₁
  simp [List.getElem?_eq_getElem hi]

lemma forall₂_zip (h : nu.length = sp.length) : List.Forall₂ (fun s t => t ∈ sp.zip nu ∧ s = t.1) sp (sp.zip nu) := by
  rw [forall₂_iff_get]
  exact ⟨by simp [h], fun i _ h₂ => ⟨get_mem _ ⟨i, h₂⟩, by simp⟩⟩

lemma coefficient_of_mem (hn : sp.Nodup)
    {t : ℕ × Exact} (ht : t ∈ sp.zip nu) : Reaction.coefficient sp nu t.1 = .ok t.2 := by
  obtain ⟨i, hi, rfl⟩ := mem_iff_getElem.1 ht
  have hs : i < sp.length := by simp at hi; omega
  have hx : i < nu.length := by simp at hi; omega
  have hid : sp.idxOf? sp[i] = some i := by
    refine List.idxOf?_eq_some_iff.2 ⟨hs, by simp, fun j hj => ?_⟩
    exact fun he => absurd ((List.Nodup.getElem_inj_iff hn).1 he) (by omega)
  simp [Reaction.coefficient, hid, List.getElem?_eq_getElem hx]

lemma Side.coefficient_of_getElem? (h : Side sp nu)
    {s i : ℕ} (hs : sp[i]? = some s) : ∃ x, nu[i]? = some x ∧ Reaction.coefficient sp nu s = .ok x := by
  obtain ⟨hi, rfl⟩ := List.getElem?_eq_some_iff.1 hs
  have hx : i < nu.length := h.length_eq ▸ hi
  have hz : i < (sp.zip nu).length := by simp [hi, hx]
  have hm := getElem_mem hz
  rw [getElem_zip] at hm
  exact ⟨nu[i], List.getElem?_eq_getElem hx, coefficient_of_mem h.nodup hm⟩

variable {s : ℕ}

lemma coefficient_ok (h : sp.length ≤ nu.length) (hs : s ∈ sp) : ∃ x, Reaction.coefficient sp nu s = .ok x := by
  obtain ⟨i, hi⟩ : ∃ i, sp.idxOf? s = some i := by
    rw [← Option.isSome_iff_exists, isSome_idxOf?]
    exact hs
  obtain ⟨hlt, -⟩ := List.idxOf?_eq_some_iff.1 hi
  exact ⟨nu[i], by simp [Reaction.coefficient, hi]⟩

section Keys
variable {β κ : Type} {key : β → κ} {xs : List β} {k : κ} [DecidablePred (key · = k)]

lemma sum_map_of_not_mem (y : ℝ) (hk : k ∉ xs.map key) : (xs.map fun e => if key e = k then y else 0).sum = 0 := by
  refine sum_eq_zero fun z hz => ?_
  obtain ⟨e, he, rfl⟩ := mem_map.1 hz
  exact if_neg fun h : key e = k => hk (h ▸ mem_map_of_mem he)

/-- Where every key occurs once, what is counted for one key is counted once. -/
lemma sum_map_of_mem (y : ℝ) (h : (xs.map key).Nodup) (hk : k ∈ xs.map key) :
    (xs.map fun e => if key e = k then y else 0).sum = y := by
  induction xs with
  | nil => cases hk
  | cons e es ih =>
    rw [map_cons, nodup_cons] at h
    rw [map_cons, sum_cons]
    rcases mem_cons.1 hk with rfl | hk
    · rw [if_pos rfl, sum_map_of_not_mem y h.1, add_zero]
    · rw [if_neg (by rintro rfl; exact h.1 hk), ih h.2 hk, zero_add]

end Keys

/-! ## Participants -/

lemma nodup_eraseDups (xs : List ℕ) : xs.eraseDups.Nodup := by
  match xs with
  | [] => exact nodup_nil
  | x :: xs =>
    rw [eraseDups_cons, nodup_cons]
    exact ⟨by simp, nodup_eraseDups _⟩
termination_by xs.length
decreasing_by exact Nat.lt_succ_of_le (length_filter_le _ _)

namespace Rate

variable {α : Type} (r : Reaction ℕ α)

lemma nodup_participants : (participants r).Nodup := nodup_eraseDups _

@[simp] lemma mem_participants : s ∈ participants r ↔ s ∈ r.reactants ∨ s ∈ r.products := by
  simp [participants, ascending]

/-- The participants are the products and then the reactants that are no products. -/
lemma participants_perm (hr : r.reactants.Nodup) (hp : r.products.Nodup) :
    (participants r).Perm (r.products ++ r.reactants.filter fun s => !r.products.contains s) := by
  have hn : (r.products ++ r.reactants.filter fun s => !r.products.contains s).Nodup := by
    rw [nodup_append]
    refine ⟨hp, hr.filter _, fun s hs t ht => ?_⟩
    rintro rfl
    simp [hs] at ht
  refine (perm_ext_iff_of_nodup (nodup_participants r) hn).2 fun s => ?_
  by_cases h : s ∈ r.products <;> simp [h]

end Rate

/-! ## Net coefficients -/

namespace Reaction

variable (r : Reaction ℕ Exact)

/-- Both lists of coefficients are at least as long as those of the species. -/
structure Aligned : Prop where
  reactants : r.reactants.length ≤ r.reactantNu.length
  products : r.products.length ≤ r.productNu.length

def change (s : ℕ) : Exact := (r.net s).toOption.getD Arithmetic.zero

variable {r}

lemma net_ok (h : r.Aligned) (s : ℕ) : ∃ x, r.net s = .ok x := by
  unfold net
  by_cases hp : s ∈ r.products <;> by_cases hr : s ∈ r.reactants <;>
    simp only [contains_iff_mem, hp, hr, if_true, if_false]
  · obtain ⟨x, hx⟩ := coefficient_ok h.products hp
    obtain ⟨y, hy⟩ := coefficient_ok h.reactants hr
    exact ⟨_, by rw [hx, hy]; rfl⟩
  · exact coefficient_ok h.products hp
  · obtain ⟨y, hy⟩ := coefficient_ok h.reactants hr
    exact ⟨_, by rw [hy]; rfl⟩
  · exact ⟨_, rfl⟩

lemma net_eq (h : r.Aligned) (s : ℕ) : r.net s = .ok (r.change s) := by
  obtain ⟨x, hx⟩ := net_ok h s
  rw [change, hx]
  rfl

lemma change_of_not_mem (h : s ∉ Rate.participants r) : r.change s = Arithmetic.zero := by
  simp only [Rate.mem_participants, not_or] at h
  simp [change, net, h, Except.toOption]

lemma change_of_both {x y : Exact} (hp : s ∈ r.products) (hr : s ∈ r.reactants)
    (hx : coefficient r.products r.productNu s = .ok x)
    (hy : coefficient r.reactants r.reactantNu s = .ok y) :
    r.change s = if Arithmetic.isZero (x - y) then Arithmetic.zero else x - y := by
  simp only [change, net, contains_iff_mem, hp, hr, if_true, hx, hy]
  rfl

lemma change_of_product {x : Exact} (hp : s ∈ r.products) (hr : s ∉ r.reactants)
    (hx : coefficient r.products r.productNu s = .ok x) : r.change s = x := by
  simp only [change, net, contains_iff_mem, hp, hr, if_true, if_false, hx]
  rfl

lemma change_of_reactant {y : Exact} (hp : s ∉ r.products) (hr : s ∈ r.reactants)
    (hy : coefficient r.reactants r.reactantNu s = .ok y) : r.change s = -y := by
  simp only [change, net, contains_iff_mem, hp, hr, if_true, if_false, hy]
  rfl

lemma Side.aligned (hr : Side r.reactants r.reactantNu) (hp : Side r.products r.productNu) :
    r.Aligned := ⟨hr.length_eq.ge, hp.length_eq.ge⟩

end Reaction

/-! ## Changing species -/

namespace Rate

/-- A species with its net coefficient, if it changes. -/
def changing (r : Reaction ℕ Exact) (s : ℕ) : Option (ℕ × Exact) :=
  if Arithmetic.isZero (r.change s) then none else some (s, r.change s)

lemma sum_changing (r : Reaction ℕ Exact) (g : ℕ → ℝ) (xs : List ℕ) :
    ((xs.filterMap (changing r)).map fun t => t.2.toReal * g t.1).sum =
      (xs.map fun s => (r.change s).toReal * g s).sum := by
  induction xs with
  | nil => rfl
  | cons s xs ih =>
    rw [filterMap_cons, map_cons, sum_cons, ← ih, changing]
    by_cases h : (r.change s).toReal = 0
    · simp [(Exact.isZero_iff _).2 h, h]
    · simp [(Exact.isZero_false_iff _).2 h]

/-- Over all participants, a quantity of one species counts as often as the species changes. -/
lemma sum_changing_single (r : Reaction ℕ Exact) (s : ℕ) (x : ℝ) :
    (((participants r).filterMap (changing r)).map fun t => t.2.toReal * if t.1 = s then x else 0).sum =
      (r.change s).toReal * x := by
  rw [sum_changing r fun q => if q = s then x else 0]
  by_cases hs : s ∈ participants r
  · rw [← sum_toFinset _ (nodup_participants r)]
    simp only [mul_ite, mul_zero]
    rw [Finset.sum_ite_eq' _ s, if_pos (mem_toFinset.2 hs)]
  · rw [Reaction.change_of_not_mem hs, Exact.toReal_zero, zero_mul]
    refine sum_eq_zero fun y hy => ?_
    obtain ⟨q, hq, rfl⟩ := mem_map.1 hy
    have hne : q ≠ s := fun h => hs (h ▸ hq)
    simp [hne]

end Rate

end

end Kinetics
