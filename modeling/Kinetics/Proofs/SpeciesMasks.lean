import Kinetics.Generation.Generate
import Kinetics.Proofs.Runs
/-!
# Moving the last species and its values

The two maps that move a species to the end undo each other, and all other species keep their order.
The generated functions that bring a vector of species values into the new order and back follow the
same two maps, so that each of them undoes the other (`last_species_masks`). Where the species to
be moved is already the last one, the functions are empty and the maps change nothing.
-/

open List

namespace Kinetics.Ordering

/-- Two orders of the numbers below `n`, each of which gives the position in the other. -/
structure InverseOrders (n : ℕ) (f g : List ℕ) : Prop where
  forward : f.Perm (List.range n)
  backward : g.Perm (List.range n)
  inverse : ∀ i j : ℕ, f[i]? = some j ↔ g[j]? = some i

/-! ## The maps -/

section Maps
variable {n last : ℕ} (h : last < n)
include h

lemma forwardMap_eq : forwardMap n last =
    List.range last ++ (List.range (n - (last + 1))).map (last + 1 + ·) ++ [last] := by
  have hs : List.range n = List.range last ++ [last] ++ (List.range (n - (last + 1))).map (last + 1 + ·) := by
    rw [← range_succ, ← range_add]
    congr 1
    omega
  have hb : (List.range last).filter (· != last) = List.range last := by
    apply filter_eq_self.2
    intro i hi
    have := mem_range.1 hi
    simp
    omega
  have ha : ((List.range (n - (last + 1))).map (last + 1 + ·)).filter (· != last) =
      (List.range (n - (last + 1))).map (last + 1 + ·) := by
    apply filter_eq_self.2
    intro i hi
    obtain ⟨k, -, rfl⟩ := mem_map.1 hi
    simp
    omega
  rw [forwardMap, hs, filter_append, filter_append, hb, ha]
  simp

lemma getElem?_forwardMap (i : ℕ) : (forwardMap n last)[i]? =
    if i < last then some i else if i + 1 < n then some (i + 1)
      else if i + 1 = n then some last else none := by
  rw [forwardMap_eq h, append_assoc, List.getElem?_append, List.getElem?_append]
  simp only [length_range, length_map]
  split
  · next hi => simp [hi]
  · next hi =>
    split
    · next hm =>
      rw [if_pos (by omega)]
      simp [hm]
      omega
    · next hm =>
      rw [if_neg (by omega)]
      split
      · next hend =>
        have : i - last - (n - (last + 1)) = 0 := by omega
        simp [this]
      · next hend =>
        have : i - last - (n - (last + 1)) ≠ 0 := by omega
        simp [this]

omit h in
lemma getElem?_backwardMap (i : ℕ) : (backwardMap n last)[i]? =
    if i < n then some (if i = last then n - 1 else if last < i then i - 1 else i) else none := by
  unfold backwardMap
  split
  · next hi => simp [hi]
  · next hi => simp [hi]

lemma forwardMap_perm : (forwardMap n last).Perm (List.range n) := by
  have hmem : last ∈ List.range n := mem_range.2 h
  have he : (List.range n).erase last = (List.range n).filter (· != last) := nodup_range.erase_eq_filter last
  rw [forwardMap, ← he]
  exact (perm_append_singleton last _).trans (perm_cons_erase hmem).symm

end Maps

/-- An order of which the positions are given by another list is undone by it. -/
lemma InverseOrders.of_perm {n : ℕ} {f g : List ℕ} (hf : f.Perm (List.range n))
    (hfg : ∀ i j : ℕ, f[i]? = some j ↔ g[j]? = some i) : InverseOrders n f g := by
  have hl : f.length = n := by simpa using hf.length_eq
  have hn : g.Nodup := by
    rw [nodup_iff_getElem?_ne_getElem?]
    intro i j hij hj heq
    have hi := (hfg _ _).2 (heq.trans (List.getElem?_eq_getElem hj))
    rw [(hfg _ _).2 (List.getElem?_eq_getElem hj), Option.some.injEq] at hi
    omega
  refine ⟨hf, (perm_ext_iff_of_nodup hn nodup_range).2 fun i => ?_, hfg⟩
  rw [mem_range, ← hl, mem_iff_getElem?]
  constructor
  · rintro ⟨j, hj⟩
    exact (List.getElem?_eq_some_iff.1 ((hfg i j).2 hj)).1
  · intro hi
    exact ⟨f[i], (hfg _ _).1 (List.getElem?_eq_getElem hi)⟩

lemma lastSpeciesMaps_inverse {n last : ℕ} (h : last < n) :
    InverseOrders n (forwardMap n last) (backwardMap n last) := by
  apply InverseOrders.of_perm (forwardMap_perm h)
  intro i j
  rw [getElem?_forwardMap h, getElem?_backwardMap]
  split_ifs <;> simp <;> omega

lemma InverseOrders.symm {n : ℕ} {f g : List ℕ} (h : InverseOrders n f g) : InverseOrders n g f :=
  ⟨h.backward, h.forward, fun i j => (h.inverse j i).symm⟩

/-! ## Vectors in another order -/

section Permuted
variable {β : Type}

/-- A vector in another order: each position takes what stood at the position that is listed. -/
def permuted (order : List ℕ) (v : List β) : List β := order.filterMap fun k => v[k]?

variable {order : List ℕ} {v : List β}

lemma permuted_cons {k : ℕ} (hk : k < v.length) (order : List ℕ) :
    permuted (k :: order) v = v[k] :: permuted order v := by
  rw [permuted, filterMap_cons, List.getElem?_eq_getElem hk]
  rfl

lemma length_permuted (h : ∀ k ∈ order, k < v.length) : (permuted order v).length = order.length := by
  induction order with
  | nil => rfl
  | cons k order ih =>
    rw [forall_mem_cons] at h
    rw [permuted_cons h.1, length_cons, length_cons, ih h.2]

lemma getElem?_permuted (h : ∀ k ∈ order, k < v.length) (i : ℕ) :
    (permuted order v)[i]? = order[i]?.bind fun k => v[k]? := by
  induction order generalizing i with
  | nil => rfl
  | cons k order ih =>
    rw [forall_mem_cons] at h
    rw [permuted_cons h.1]
    cases i with
    | zero => simp [List.getElem?_eq_getElem h.1]
    | succ i => simpa using ih h.2 i

lemma permuted_range (v : List β) : permuted (List.range v.length) v = v := by
  have hlt : ∀ k ∈ List.range v.length, k < v.length := fun k hk => mem_range.1 hk
  apply ext_getElem?
  intro i
  rw [getElem?_permuted hlt]
  by_cases hi : i < v.length
  · simp [hi]
  · simp [hi]

namespace InverseOrders
variable {n : ℕ} {f g : List ℕ} (h : InverseOrders n f g) (hv : v.length = n)
include h hv

lemma lt_length : ∀ k ∈ f, k < v.length := by
  intro k hk
  rw [hv]
  exact mem_range.1 (h.forward.mem_iff.1 hk)

lemma length_permuted : (permuted f v).length = n := by
  rw [Ordering.length_permuted (h.lt_length hv)]
  simpa using h.forward.length_eq

/-- The value of each position goes to where the other order says. -/
lemma getElem?_moved {k i : ℕ} (hk : g[k]? = some i) : (permuted f v)[i]? = v[k]? := by
  rw [getElem?_permuted (h.lt_length hv), (h.inverse i k).2 hk]
  rfl

lemma permuted_permuted : permuted g (permuted f v) = v := by
  apply ext_getElem?
  intro k
  rw [getElem?_permuted (h.symm.lt_length (h.length_permuted hv))]
  by_cases hk : k < n
  · have hg : g.length = n := by simpa using h.backward.length_eq
    have hi := List.getElem?_eq_getElem (hg.symm ▸ hk)
    rw [hi]
    exact h.getElem?_moved hv hi
  · have hg : g[k]? = none := by
      rw [List.getElem?_eq_none_iff, h.backward.length_eq, length_range]
      omega
    have hn : v[k]? = none := by
      rw [List.getElem?_eq_none_iff]
      omega
    rw [hg, hn]
    rfl

end InverseOrders

end Permuted

end Kinetics.Ordering

namespace Kinetics.Emit

open Code Kinetics.Ordering

variable {α β : Type}

/-! ## What the functions do -/

def functionBody (name : String) (file : SourceFile α) : Option (List (Item α)) := file.parts.findSome? fun
    | .function head body _ => if head.name = name then some body else none
    | _ => none

/-- The arrays of a function that reorders: the vector that it is given, and its copy, if that is
declared, with what its entries hold. -/
structure Vectors (β : Type) where
  given : List β
  copy : Option (List (Option β)) := none

/-- Runs a statement on vectors of `n` entries. It has no meaning if it uses what is not there. -/
def Vectors.step (n : ℕ) (v : Vectors β) : Step α → Option (Vectors β)
  | .line text =>
    if text = "        double temp [NSP];\n" then some { v with copy := some (List.replicate n none) }
    else if text = "        memcpy(temp, y_specs, NSP * sizeof(double));\n" then
      if v.copy.isSome ∧ n ≤ v.given.length then some { v with copy := some ((v.given.take n).map some) }
      else none
    else none
  | .assign _ (.element target (some i)) .set (.element source (some k)) =>
    if target = "y_specs" ∧ source = "temp" ∧ 0 ≤ i ∧ i.toNat < v.given.length ∧ 0 ≤ k then do
      let x ← (← (← v.copy)[k.toNat]?)
      return { v with given := v.given.set i.toNat x }
    else none
  | _ => none

def Vectors.run (n : ℕ) (v : Vectors β) : List (Item α) → Option (Vectors β)
  | [] => some v
  | .step s :: rest => (v.step n s).bind fun w => w.run n rest
  | _ :: _ => none

/-- The vector that a function of a file makes of a given one. -/
def callOn (name : String) (file : SourceFile α) (n : ℕ) (v : List β) : Option (List β) :=
  (functionBody name file).bind fun body => (Vectors.run n { given := v } body).map (·.given)

/-- The assignments of a permutation, from position `i` on. -/
def moves (order : List ℕ) (i : ℕ) : List (Step α) :=
  (order.zipIdx i).map fun p => .assign 8 (.cell "y_specs" p.2) .set (.cell "temp" p.1)

lemma step_move (n : ℕ) {given copy : List β} {i k : ℕ} (hi : i < given.length) (hk : k < copy.length) :
    Vectors.step n ⟨given, some (copy.map some)⟩ (.assign 8 (.cell "y_specs" i) .set (.cell "temp" k) : Step α) =
      some ⟨given.set i copy[k], some (copy.map some)⟩ := by
  unfold Expr.cell
  simp [Vectors.step, hi, hk]

/-- The assignments fill the positions from `i` on with values of the copy. -/
lemma run_moves (n : ℕ) {copy : List β} {order : List ℕ} (ho : ∀ k ∈ order, k < copy.length)
    (i : ℕ) (given : List β) (hg : i + order.length ≤ given.length) :
    Vectors.run n ⟨given, some (copy.map some)⟩ ((moves order i).map (Item.step (α := α))) =
      some ⟨given.take i ++ permuted order copy ++ given.drop (i + order.length), some (copy.map some)⟩ := by
  induction order generalizing i given with
  | nil => simp [moves, Vectors.run, permuted]
  | cons k order ih =>
    rw [forall_mem_cons] at ho
    rw [length_cons] at hg ⊢
    have hi : i < given.length := by omega
    have hs := step_move (α := α) n hi ho.1
    have hr := ih ho.2 (i + 1) (given.set i copy[k]) (by simp; omega)
    rw [show moves (k :: order) i = .assign 8 (.cell "y_specs" i) .set (.cell "temp" k) :: moves order (i + 1) from rfl]
    rw [map_cons, Vectors.run, hs, Option.bind_some, hr, permuted_cons ho.1]
    congr 2
    rw [take_succ_eq_append_getElem (by simpa using hi), take_set_of_le (le_refl i), drop_set_of_lt (by omega)]
    simp [Nat.add_assoc, Nat.add_comm 1]

lemma permutationSteps_eq (order : List ℕ) : permutationSteps (α := α) (order.map Int.ofNat) =
    [.line "        double temp [NSP];\n",
      .line "        memcpy(temp, y_specs, NSP * sizeof(double));\n"] ++ moves order 0 := by
  rw [permutationSteps, zipIdx_map, map_map]
  rfl

/-- The statements of a permutation bring a vector into the listed order. -/
lemma run_permutationSteps {order : List ℕ} {v : List β} (ho : ∀ k ∈ order, k < v.length)
    (hl : order.length = v.length) :
    (Vectors.run v.length { given := v }
      ((permutationSteps (order.map Int.ofNat)).map (Item.step (α := α)))).map (·.given) =
      some (permuted order v) := by
  have hm := run_moves (α := α) v.length ho 0 v (by omega)
  have hd : Vectors.step (α := α) v.length { given := v } (.line "        double temp [NSP];\n") =
      some ⟨v, some (List.replicate v.length none)⟩ := by
    simp [Vectors.step]
  have hc : Vectors.step (α := α) v.length ⟨v, some (List.replicate v.length none)⟩
      (.line "        memcpy(temp, y_specs, NSP * sizeof(double));\n") =
      some ⟨v, some (v.map some)⟩ := by
    simp [Vectors.step]
  rw [permutationSteps_eq]
  simp only [cons_append, nil_append, map_cons, Vectors.run, hd, hc, Option.bind_some, hm]
  simp [hl]

section Masks
variable {n : ℕ} {o : SpeciesOrder} {f g : List ℕ} {v : List β}

/-- A mask brings a vector into the listed order, also if it is empty because nothing moves. -/
lemma run_maskSteps (hf : f.Perm (List.range n)) (hv : v.length = n)
    (he : o.optimized = false → o.last = some (n - 1 : ℤ) → f = List.range n) :
    (Vectors.run n { given := v } ((maskSteps n o (f.map Int.ofNat)).map (Item.step (α := α)))).map
      (·.given) = some (permuted f v) := by
  subst hv
  unfold maskSteps
  split
  · apply run_permutationSteps
    · intro k hk
      exact mem_range.1 (hf.mem_iff.1 hk)
    · simpa using hf.length_eq
  · next hs =>
    simp only [Bool.or_eq_true, bne_iff_ne, not_or, Bool.not_eq_true, not_not] at hs
    rw [he hs.1 hs.2, permuted_range]
    rfl

/-- What the two functions of a mechanism source do to vectors of `n` species values, if `g` gives the
new position of each species: one of them moves the values, and each undoes the other. -/
structure Masks (n : ℕ) (g : List ℕ) (file : SourceFile α) : Prop where
  moves : ∀ {β : Type} (v : List β), v.length = n → ∃ w, callOn "apply_mask" file n v = some w ∧
    w.length = n ∧ (∀ k i : ℕ, g[k]? = some i → w[i]? = v[k]?) ∧
    callOn "apply_reverse_mask" file n w = some v
  undoes : ∀ {β : Type} (v : List β), v.length = n →
    ∃ w, callOn "apply_reverse_mask" file n v = some w ∧ callOn "apply_mask" file n w = some v

lemma functionBody_masks [Arithmetic α] {l : Language} {state : InitialState α} {file : SourceFile α}
    (hf : mechanismSource l n o state = .ok file) :
    functionBody "apply_mask" file = some ((maskSteps n o o.forward).map .step) ∧
      functionBody "apply_reverse_mask" file = some ((maskSteps n o o.backward).map .step) := by
  obtain ⟨suffix, -, hf⟩ := bind_eq_ok.1 hf
  cases pure_eq_ok.1 hf
  constructor
  · simp [functionBody, maskFunction]
  · simp [functionBody, maskFunction]

lemma mechanismSource_masks [Arithmetic α] {l : Language} {state : InitialState α}
    {file : SourceFile α} (h : InverseOrders n f g) (hf : o.forward = f.map Int.ofNat)
    (hb : o.backward = g.map Int.ofNat)
    (he : o.optimized = false → o.last = some (n - 1 : ℤ) → f = List.range n ∧ g = List.range n)
    (hfl : mechanismSource l n o state = .ok file) : Masks n g file := by
  obtain ⟨hmaskBody, hreverseBody⟩ := functionBody_masks hfl
  have hm : ∀ {β : Type} (v : List β), v.length = n → callOn "apply_mask" file n v = some (permuted f v) := by
    intro β v hv
    rw [callOn, hmaskBody, hf]
    exact run_maskSteps h.forward hv fun ho hl => (he ho hl).1
  have hr : ∀ {β : Type} (v : List β), v.length = n → callOn "apply_reverse_mask" file n v = some (permuted g v) := by
    intro β v hv
    rw [callOn, hreverseBody, hb]
    exact run_maskSteps h.backward hv fun ho hl => (he ho hl).2
  constructor
  · intro β v hv
    have hw := h.length_permuted hv
    refine ⟨permuted f v, hm v hv, hw, fun k i hk => h.getElem?_moved hv hk, ?_⟩
    rw [hr _ hw, h.permuted_permuted hv]
  · intro β v hv
    have hw := h.symm.length_permuted hv
    refine ⟨permuted g v, hr v hv, ?_⟩
    rw [hm _ hw, h.symm.permuted_permuted hv]

end Masks

end Kinetics.Emit

namespace Kinetics.Generation

open Workspace Code Emit Kinetics.Ordering

lemma forwardMap_self {n last : ℕ} (h : last + 1 = n) : forwardMap n last = List.range n := by
  apply ext_getElem?
  intro i
  rw [getElem?_forwardMap (by omega)]
  by_cases hi : i < n
  · split_ifs <;> grind
  · split_ifs <;> grind

lemma backwardMap_self {n last : ℕ} (h : last + 1 = n) : backwardMap n last = List.range n := by
  apply ext_getElem?
  intro i
  rw [getElem?_backwardMap]
  by_cases hi : i < n
  · split_ifs <;> grind
  · split_ifs; grind

lemma mapM_entryAt {β : Type} {order : List ℕ} {v : List β} (h : ∀ k ∈ order, k < v.length) :
    order.mapM (entryAt v) = .ok (permuted order v) := by
  induction order with
  | nil => rfl
  | cons k order ih =>
    rw [forall_mem_cons] at h
    have hk : entryAt v k = .ok v[k] := entryAt_eq_ok.2 (List.getElem?_eq_getElem h.1)
    rw [mapM_cons, hk, ih h.2, permuted_cons h.1]
    rfl

/-- The arrangement that moves one species to the end and does nothing else. -/
def movedLast (m : Reading.Mechanism) (last : ℕ) : Arrangement where
  species := permuted (forwardMap m.species.length last) m.species
  reactions := m.reactions
  order := {
    forward := (forwardMap m.species.length last).map Int.ofNat
    backward := (backwardMap m.species.length last).map Int.ofNat
    optimized := false
    last := some last }
  reactionMap := (List.range m.reactions.length).map Int.ofNat

/-- Without a search for a better order, one species is moved to the end. -/
lemma arrange_unsearched {s : Settings} (hs : s.optimize = false) {m : Reading.Mechanism} {last : ℕ}
    (h : last < m.species.length) (host : Host) (state : State) :
    (arrange s m last).start host state = (.ok (movedLast m last), state) := by
  have hm : lastSpeciesMaps m.species.length last =
      .ok (forwardMap m.species.length last, backwardMap m.species.length last) := by
    simp [lastSpeciesMaps, h]
  have hp := mapM_entryAt ((lastSpeciesMaps_inverse h).lt_length rfl)
  unfold arrange
  rw [hs, hm, if_neg (by decide)]
  rw [Job.start_bind_of_ok (Job.start_lift _ _ _)]
  dsimp only
  rw [hp]
  rfl

lemma movedLast_masks {m : Reading.Mechanism} {last : ℕ} (h : last < m.species.length) {l : Language}
    {state : InitialState Scalar} {file : SourceFile Scalar}
    (hf : mechanismSource l m.species.length (movedLast m last).order state = .ok file) :
    Masks m.species.length (backwardMap m.species.length last) file := by
  refine mechanismSource_masks (lastSpeciesMaps_inverse h) rfl rfl (fun _ hl => ?_) hf
  have hend : last + 1 = m.species.length := by
    have : (last : ℤ) = m.species.length - 1 := Option.some.inj hl
    omega
  exact ⟨forwardMap_self hend, backwardMap_self hend⟩

/-- What is written for a mechanism includes its header and its source. -/
lemma mechanismFiles_eq_ok {t : Target} {sp : List (Species Scalar)}
    {rs : List (Reaction ℕ Scalar)} {o : SpeciesOrder} {initial : List Char}
    {files : List (SourceFile Scalar)}
    (h : mechanismFiles t sp rs o initial = .ok files) :
    ∃ arrays state he source, deviceArrays sp rs = .ok arrays ∧
      mechanismHeader t.language arrays (sp.map (·.name)) rs o = .ok he ∧
      mechanismSource t.language sp.length o state = .ok source ∧
      he ∈ files ∧ source ∈ files := by
  obtain ⟨-, -, h⟩ := bind_eq_ok.1 h
  obtain ⟨arrays, ha, h⟩ := bind_eq_ok.1 h
  extract_lets rest at h
  -- the initial state is the standard one or is read, and what follows is the same
  obtain ⟨state, h⟩ : ∃ state, rest state = .ok files := by
    split at h
    · obtain ⟨state, -, h⟩ := bind_eq_ok.1 h
      exact ⟨state, h⟩
    · obtain ⟨state, -, h⟩ := bind_eq_ok.1 h
      exact ⟨state, h⟩
  obtain ⟨he, hh, h⟩ := bind_eq_ok.1 h
  obtain ⟨source, hs, h⟩ := bind_eq_ok.1 h
  cases pure_eq_ok.1 h
  exact ⟨arrays, state, he, source, ha, hh, hs, by simp, by simp⟩

lemma mechanismSource_ok {l : Language} (h : l = .c ∨ l = .cuda) (n : ℕ) (o : SpeciesOrder)
    (state : InitialState Scalar) : ∃ file, mechanismSource l n o state = .ok file := by
  rcases h with rfl | rfl
  · exact ⟨_, rfl⟩
  · exact ⟨_, rfl⟩

lemma mechanismSource_path {l : Language} {n : ℕ} {o : SpeciesOrder} {state : InitialState Scalar}
    {file : SourceFile Scalar} (h : mechanismSource l n o state = .ok file) :
    file.path = "mechanism" ++ l.sourceSuffix := by
  obtain ⟨suffix, -, h⟩ := bind_eq_ok.1 h
  cases pure_eq_ok.1 h
  rfl

/-- The maps that move a species to the end, the order of species that they give, and the functions
that are generated for them, fit together. -/
theorem last_species_masks {n last : ℕ} (h : last < n) :
    ∃ f g, lastSpeciesMaps n last = .ok (f, g) ∧ InverseOrders n f g ∧
      f.getLast? = some last ∧ f.dropLast.Pairwise (· < ·) ∧
      ∀ m : Reading.Mechanism, m.species.length = n → ∀ s : Settings, s.optimize = false →
        ∀ host state, ∃ a, (arrange s m last).start host state = (.ok a, state) ∧
          a.species.length = n ∧ (∀ i k : ℕ, f[i]? = some k → a.species[i]? = m.species[k]?) ∧
          (∀ l, l = .c ∨ l = .cuda → ∀ initially : InitialState Scalar,
            ∃ file, mechanismSource l n a.order initially = .ok file ∧ Masks n g file) ∧
          ∀ t reactions initial files, mechanismFiles t a.species reactions a.order initial = .ok files →
            ∃ file ∈ files, file.path = "mechanism" ++ t.language.sourceSuffix ∧ Masks n g file := by
  have hinverse := lastSpeciesMaps_inverse h
  refine ⟨forwardMap n last, backwardMap n last, by simp [lastSpeciesMaps, h], hinverse, ?_, ?_, ?_⟩
  · rw [forwardMap, List.getLast?_concat]
  · rw [forwardMap, dropLast_concat]
    exact pairwise_lt_range.filter _
  · rintro m rfl s hs host state
    have hlength := hinverse.length_permuted (v := m.species) rfl
    refine ⟨movedLast m last, arrange_unsearched hs h host state, hlength, ?_, ?_, ?_⟩
    · intro i k hik
      exact hinverse.getElem?_moved rfl ((hinverse.inverse i k).1 hik)
    · intro l hl initially
      obtain ⟨file, hfile⟩ := mechanismSource_ok hl m.species.length (movedLast m last).order initially
      exact ⟨file, hfile, movedLast_masks h hfile⟩
    · intro t reactions initial files hfiles
      obtain ⟨arrays, initially, header, source, -, -, hsource, -, hmem⟩ := mechanismFiles_eq_ok hfiles
      rw [show (movedLast m last).species.length = m.species.length from hlength] at hsource
      exact ⟨source, hmem, mechanismSource_path hsource, movedLast_masks h hsource⟩

def threeSpecies : Reading.Mechanism where
  species := [Species.named "N2", Species.named "A", Species.named "B"]

theorem threeSpecies_masks : 0 < threeSpecies.species.length ∧
    ∃ a files, (arrange { language := "c" } threeSpecies 0).start {} {} = (.ok a, {}) ∧
      mechanismFiles { language := .c } a.species [] a.order [] = .ok files ∧
      ∃ file ∈ files, ∃ w, callOn "apply_mask" file 3 ["x", "y", "z"] = some w ∧ w[2]? = some "x" ∧ w[0]? = some "y" ∧
        callOn "apply_reverse_mask" file 3 w = some ["x", "y", "z"] := by
  obtain ⟨f, g, hmaps, -, -, -, hall⟩ := @last_species_masks 3 0 (by decide)
  cases hmaps
  obtain ⟨a, harrange, -, -, -, hmasks⟩ := hall threeSpecies rfl { language := "c" } rfl {} {}
  cases harrange.symm.trans (arrange_unsearched rfl (by decide) {} {})
  refine ⟨by decide, _, _, harrange, rfl, ?_⟩
  obtain ⟨file, hfile, -, hmask⟩ := hmasks { language := .c } [] [] _ rfl
  obtain ⟨w, hw, -, hplaces, hback⟩ := hmask.moves ["x", "y", "z"] rfl
  exact ⟨file, hfile, w, hw, hplaces 0 2 rfl, hplaces 1 0 rfl, hback⟩

end Kinetics.Generation
