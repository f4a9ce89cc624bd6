import Kinetics.Jacobian.Species
import Kinetics.Proofs.Exact
import Kinetics.Proofs.Outcome
/-!
# Renumbered species

The derivatives of the rate of a falloff reaction with one collider name species by position only.
When the species are renumbered, with the last one in its place, the emitted code keeps its text but
for the positions of concentrations, unless the collider comes to the first position or leaves it:
a collider there is not counted, and the part of the derivative that comes from it is not assigned.
-/

namespace Kinetics.Code

/-- Changes the positions of concentrations. -/
def Expr.renamed {α : Type} (π : ℕ → ℕ) : Expr α → Expr α
  | .element array index =>
    .element array (if array = "conc" then index.map fun i => (π i.toNat : ℤ) else index)
  | .address e => .address (e.renamed π)
  | .negate after e => .negate after (e.renamed π)
  | .apply f inner e => .apply f inner (e.renamed π)
  | .tenPower e => .tenPower (e.renamed π)
  | .group e => .group (e.renamed π)
  | .opened e => .opened (e.renamed π)
  | .padded before after e => .padded before after (e.renamed π)
  | .binary op gap a b => .binary op gap (a.renamed π) (b.renamed π)
  | .apply2 f a b => .apply2 f (a.renamed π) (b.renamed π)
  | .beside a b => .beside (a.renamed π) (b.renamed π)
  | e => e

end Kinetics.Code

namespace Kinetics.Jacobian

open Code List

variable {α : Type} {π : ℕ → ℕ}

section Renamed

@[simp] lemma renamed_add (a b : Expr α) : (a + b).renamed π = a.renamed π + b.renamed π := rfl

@[simp] lemma renamed_sub (a b : Expr α) : (a - b).renamed π = a.renamed π - b.renamed π := rfl

@[simp] lemma renamed_mul (a b : Expr α) : (a * b).renamed π = a.renamed π * b.renamed π := rfl

@[simp] lemma renamed_group (a : Expr α) : (Expr.group a).renamed π = .group (a.renamed π) := rfl

@[simp] lemma renamed_pow (a b : Expr α) : (Expr.pow a b).renamed π = .pow (a.renamed π) (b.renamed π) := rfl

@[simp] lemma renamed_plain (x : α) : (Expr.plain x).renamed π = .plain x := rfl

@[simp] lemma renamed_full (x : α) : (Expr.full x).renamed π = .full x := rfl

@[simp] lemma renamed_var (name : String) : (Expr.var name : Expr α).renamed π = .var name := by
  simp [Expr.var, Expr.renamed]

@[simp] lemma renamed_conc (s : ℕ) : (Expr.cell "conc" s : Expr α).renamed π = .cell "conc" (π s) := by
  simp [Expr.cell, Expr.renamed]

@[simp] lemma renamed_modification (k : Ranks) : (k.modification : Expr α).renamed π = k.modification := by
  simp [Ranks.modification, Expr.renamed]

end Renamed

lemma coefficient_renamed (hπ : Function.Injective π) (species : List ℕ) (nu : List α) (s : ℕ) :
    Reaction.coefficient (species.map π) nu (π s) = Reaction.coefficient species nu s := by
  have hidx : (species.map π).idxOf? (π s) = species.idxOf? s := by
    simp only [idxOf?, findIdx?_map, Function.comp_def]
    congr
    funext x
    rw [Bool.eq_iff_iff]
    simp [hπ.eq_iff]
  simp only [Reaction.coefficient, hidx]

lemma modifiedSlopes_renamed (fraction : α) (own last : Option (Expr α) × Option (Expr α)) :
    modifiedSlopes fraction (own.map (Option.map (Expr.renamed π)) (Option.map (Expr.renamed π)))
        (lastSlope (last.map (Option.map (Expr.renamed π)) (Option.map (Expr.renamed π)))) =
      (modifiedSlopes fraction own (lastSlope last)).map (Expr.renamed π) := by
  rcases own with ⟨_ | _, _ | _⟩ <;> rcases last with ⟨_ | _, _ | _⟩ <;> rfl

/-- A collider counts unless it stands first. -/
lemma hasColliders_iff {r : Reaction ℕ α} {s : ℕ} (he : r.efficiencies = []) (hs : r.collider = some s) :
    hasColliders r = true ↔ s ≠ 0 := by
  simp [hasColliders, he, hs]

variable [Arithmetic α]

/-! ## Slopes -/

lemma timesPower_renamed (e : Expr α) (s : ℕ) (power : α) :
    (timesPower e s power).renamed π = timesPower (e.renamed π) (π s) power := by
  unfold timesPower
  split
  · induction (Arithmetic.wholePart power).toNat generalizing e with
    | zero => rfl
    | succ n ih => simp [replicate_succ, ih]
  · simp

lemma powerSlope_renamed (constant : String) (s : ℕ) (order : α) :
    (powerSlope constant s order).renamed π = powerSlope constant (π s) order := by
  simp only [powerSlope]
  split <;> split <;> simp [timesPower_renamed]

section Injective
variable (hπ : Function.Injective π)
include hπ

lemma concentrationSlope_renamed (constant : String) (species : List ℕ) (nu : List α) (s : ℕ) :
    concentrationSlope constant (species.map π) nu (π s) =
      Expr.renamed π <$> concentrationSlope constant species nu s := by
  have hfold : ∀ (xs : List (ℕ × ℕ)) (e : Expr α),
      (xs.map (Prod.map π id)).foldlM (m := Except Fault) (fun product p => if p.1 = π s then .ok product
        else do return timesPower product p.1 (← entryAt nu p.2)) (e.renamed π) =
      Expr.renamed π <$> xs.foldlM (m := Except Fault) (fun product p => if p.1 = s then .ok product
        else do return timesPower product p.1 (← entryAt nu p.2)) e := by
    intro xs
    induction xs with
    | nil => exact fun _ => rfl
    | cons x xs ih =>
      intro e
      simp only [map_cons, foldlM_cons, Prod.map_fst, Prod.map_snd, hπ.eq_iff, id, map_bind]
      split
      · exact ih e
      · cases entryAt nu x.2 with
        | error => rfl
        | ok c =>
          simp only [ok_bind, pure_bind, ← timesPower_renamed]
          exact ih _
  simp only [concentrationSlope, coefficient_renamed hπ, zipIdx_map, ← powerSlope_renamed, map_bind, hfold]

lemma directionSlope_renamed (constant : String) (species : List ℕ) (nu : List α) (s : ℕ) :
    directionSlope constant (species.map π) nu (π s) =
      Option.map (Expr.renamed π) <$> directionSlope constant species nu s := by
  simp only [directionSlope, concentrationSlope_renamed hπ, contains_eq_mem, mem_map_of_injective hπ]
  split <;> simp

end Injective

/-- The reaction after species are renumbered. -/
def renumbered (π : ℕ → ℕ) (r : Reaction ℕ α) : Reaction ℕ α :=
  { r with
    reactants := r.reactants.map π
    products := r.products.map π
    efficiencies := r.efficiencies.map fun e => (π e.1, e.2)
    collider := r.collider.map π }

lemma rateSlopes_renamed (hπ : Function.Injective π) {r : Reaction ℕ α} (s : ℕ) :
    rateSlopes (renumbered π r) (π s) =
      Prod.map (Option.map (Expr.renamed π)) (Option.map (Expr.renamed π)) <$> rateSlopes r s := by
  simp only [rateSlopes, renumbered, directionSlope_renamed hπ]
  cases r.reversible <;> simp

variable {species species' : List (Species α)} {r : Reaction ℕ α} {s : ℕ}

section Species
variable (hπ : Function.Injective π) (hlast : π (species.length - 1) = species.length - 1)
  (hlen : species'.length = species.length) (hsp : ∀ i, species'[π i]? = species[i]?)
  (he : r.efficiencies = [])
include hπ hlast hlen hsp he

lemma addColliderShare_renamed (sum : Expr α) (j : ℕ) (weight fraction : α) :
    addColliderShare (sum.renamed π) species' (renumbered π r) (π j) weight fraction =
      Expr.renamed π <$> addColliderShare sum species r j weight fraction := by
  have hc : ∀ i, (r.collider.map π == some (π i)) = (r.collider == some i) := by
    intro i
    cases r.collider <;> simp [hπ.eq_iff]
  have hentry : entryAt species' (species.length - 1) = entryAt species (species.length - 1) := by
    simp only [entryAt, ← hsp, hlast]
  have hcl := hc (species.length - 1)
  rw [hlast] at hcl
  simp only [addColliderShare, renumbered, hlen, he, map_nil, isEmpty_nil, hc, hcl, hentry, Bool.not_true,
    Bool.and_false, Bool.false_eq_true, if_false]
  split
  · simp
  · split <;> simp

lemma speciesDerivative_renamed (hf : r.falloff = true) (k : Ranks) (j : ℕ) (weight : α) :
    speciesDerivative species' k (renumbered π r) (π j) weight =
      Expr.renamed π <$> speciesDerivative species k r j weight := by
  have hl : lastEntry species' = lastEntry species := by
    simp only [lastEntry, getLast?_eq_getElem?, hlen, ← hsp, hlast]
  have hls := rateSlopes_renamed hπ (r := r) (species.length - 1)
  rw [hlast] at hls
  have hm : r.isModified = true := by simp [Reaction.isModified, hf]
  have hm' : (renumbered π r).isModified = true := hm
  simp only [speciesDerivative, hl, hlen, rateSlopes_renamed hπ, hls, hm, hm', if_true, map_bind,
    bind_map_left, modifiedSlopes_renamed]
  refine bind_congr fun w => bind_congr fun fraction => ?_
  have hstart : .var "j_temp" * .full (Arithmetic.unit - fraction) =
      (.var "j_temp" * .full (Arithmetic.unit - fraction) : Expr α).renamed π := by simp
  rw [hstart, addColliderShare_renamed hπ hlast hlen hsp he, bind_map_left]
  refine bind_congr fun sum => bind_congr fun own => bind_congr fun last => ?_
  cases modifiedSlopes fraction own (lastSlope last) <;> simp

end Species

lemma commonItems_renamed (k : Ranks) (he : r.efficiencies = []) (hs : r.collider = some s) (h : π s = 0 ↔ s = 0) :
    commonItems k (renumbered π r) = commonItems k r := by
  have hh : hasColliders (renumbered π r) = hasColliders r := by
    have hs' : (renumbered π r).collider = some (π s) := by simp [renumbered, hs]
    rw [Bool.eq_iff_iff, hasColliders_iff he hs, hasColliders_iff (by simp [renumbered, he]) hs', ne_eq, h]
  have hthird : thirdBodyOrder (renumbered π r) = thirdBodyOrder r := by simp [thirdBodyOrder, renumbered, he]
  simp only [commonItems, needsModificationSlope, commonDerivative, orderedDifference, hh, hthird]
  rfl

lemma modificationStart_sets {k : Ranks} {step : Step α} (h : modificationStart k r = .ok step) :
    ∃ e, step = .setVar "pres_mod_temp" e := by
  simp only [modificationStart] at h
  split at h
  · have hjp : ∀ e : Expr α, (pure (.setVar "pres_mod_temp" (.group e * k.net r)) : Except Fault (Step α)) = .ok step →
        ∃ e, step = .setVar "pres_mod_temp" e := fun e he => ⟨_, (pure_eq_ok.1 he).symm⟩
    grind [bind_eq_ok]
  · exact ⟨_, (pure_eq_ok.1 h).symm⟩

lemma commonItems_assigns {k : Ranks} {items : List (Step α)} (hf : r.falloff = true) (he : r.efficiencies = [])
    (hs : r.collider = some s) (h : commonItems k r = .ok items) :
    (∃ e rest, items = .setVar "pres_mod_temp" e :: rest) ↔ s ≠ 0 := by
  simp only [commonItems, needsModificationSlope, Reaction.isModified, hf, Bool.or_true, Bool.true_and] at h
  rw [← hasColliders_iff he hs]
  cases hc : hasColliders r with
  | false =>
    obtain rfl : [commonDerivative k r] = items := by simpa [hc, pure_ok] using h
    simp [commonDerivative, Step.setVar, Step.set, Expr.var]
  | true =>
    simp only [hc, if_true, bind_eq_ok, pure_eq_ok, pure_bind] at h
    obtain ⟨start, hstart, finish, -, rfl⟩ := h
    obtain ⟨e, rfl⟩ := modificationStart_sets hstart
    exact ⟨fun _ => rfl, fun _ => ⟨e, _, rfl⟩⟩

lemma speciesDerivative_mentions {k : Ranks} {weight : α} {e : Expr α} (hf : r.falloff = true)
    (he : r.efficiencies = []) (hs : r.collider = some s) (h : speciesDerivative species k r s weight = .ok e) :
    ("pres_mod_temp", none) ∈ e.cells := by
  simp only [speciesDerivative, bind_eq_ok] at h
  obtain ⟨-, -, fraction, -, sum, hsum, own, -, last, -, h⟩ := h
  have hmem : ("pres_mod_temp", none) ∈ sum.cells := by
    simp only [addColliderShare, he, hs, isEmpty_nil, Bool.not_true, Bool.and_false, Bool.false_eq_true, if_false,
      beq_self_eq_true, if_true, pure_eq_ok] at hsum
    rw [← hsum]
    exact mem_append_right _ (mem_singleton_self _)
  rw [if_pos (by simp [Reaction.isModified, hf])] at h
  split at h
  · rw [← pure_eq_ok.1 h]
    exact mem_append_left _ hmem
  · rwa [← pure_eq_ok.1 h]

/-- The part that is common to all species assigns `pres_mod_temp` exactly if the collider does not stand first,
although the derivative by the collider reads it wherever it stands. After a renumbering that leaves the last species,
the common part is the same unless the collider comes to the first position or leaves it, and the derivatives differ
in positions only. -/
theorem collider_positions (k : Ranks) (hf : r.falloff = true) (he : r.efficiencies = []) (hs : r.collider = some s)
    (hπ : Function.Injective π) (hlast : π (species.length - 1) = species.length - 1)
    (hlen : species'.length = species.length) (hsp : ∀ i, species'[π i]? = species[i]?) :
    (∀ items, commonItems k r = .ok items → ((∃ e rest, items = .setVar "pres_mod_temp" e :: rest) ↔ s ≠ 0)) ∧
      ((π s = 0 ↔ s = 0) → commonItems k (renumbered π r) = commonItems k r) ∧
      (∀ species weight e, speciesDerivative species k r s weight = .ok e → ("pres_mod_temp", none) ∈ e.cells) ∧
      ∀ j weight, speciesDerivative species' k (renumbered π r) (π j) weight =
        Expr.renamed π <$> speciesDerivative species k r j weight :=
  ⟨fun _ => commonItems_assigns hf he hs, commonItems_renamed k he hs,
    fun _ _ _ => speciesDerivative_mentions hf he hs, speciesDerivative_renamed hπ hlast hlen hsp he hf k⟩

/-- The association of two hydrogen atoms that collide with the second of four species. -/
noncomputable def argonAssociation : Reaction ℕ Exact :=
  { Reaction.elementary false [0] [.count 2] [2] [.count 1] (.count 1) (.count 0) (.count 0) with
    falloff := true
    collider := some 1
    low := [.count 1, .count 0, .count 0] }

/-- The second and the third species change places. -/
theorem argonAssociation_positions : (∃ items, commonItems default argonAssociation = .ok items) ∧
    (∀ items, commonItems default argonAssociation = .ok items → ∃ e rest, items = .setVar "pres_mod_temp" e :: rest) ∧
    commonItems default (renumbered (Equiv.swap 1 2) argonAssociation) = commonItems default argonAssociation := by
  have hsp : ∀ i, (replicate 4 (default : Species Exact))[Equiv.swap 1 2 i]? = (replicate 4 default)[i]? := by
    intro i
    by_cases hi : i < 4
    · interval_cases i <;> rfl
    · rw [Equiv.swap_apply_of_ne_of_ne (by omega) (by omega)]
  obtain ⟨hassigned, hcommon, -⟩ := collider_positions (r := argonAssociation) (s := 1) default rfl rfl rfl
    (Equiv.injective (Equiv.swap 1 2)) (by decide) rfl hsp
  refine ⟨?_, fun items h => (hassigned items h).2 one_ne_zero, hcommon (by decide)⟩
  simp [commonItems, needsModificationSlope, hasColliders, argonAssociation, Reaction.elementary, modificationStart,
    modificationEnd, limitQuotient, entryAt, Rate.arrhenius, Exact.div_ok, Rate.arrheniusPositive, Reaction.isModified,
    pure_ok, Exact.log_ok (a := .measure 1) (by simp)]

end Kinetics.Jacobian
