import Kinetics.Proofs.OrderSearch
/-!
# Orders of a mechanism

The maps that come out of the searches for an order are inverse to each other. A mechanism is put into an order if
it lists what it names and enough of it takes part, and only then if every search takes a step (`reorder_ends`). An
order that is kept is used again where that is allowed and possible (`optimize_ends`), and all orders that are kept
stay sound (`arrange_sound`).
-/

open List

variable {n : ℕ}

namespace Kinetics.Ordering

open Kinetics.Random

variable {α : Type} [Arithmetic α]

variable {i : ℕ}

/-! ## Rows of a mechanism -/

lemma speciesIndex_yields (names : List String) (name : String) :
    Yields (fun k => k < names.length ∧ name ∈ names) (speciesIndex names name) := by
  unfold speciesIndex
  split
  · next i hi =>
    have hlt := (List.idxOf?_eq_some_iff.1 hi).1
    rw [length_reverse] at hlt
    refine yields_ok.2 ⟨by omega, mem_reverse.1 (isSome_idxOf?.1 ?_)⟩
    rw [hi]
    rfl
  · exact yields_error _

lemma speciesIndex_ok {names : List String} {name : String} (h : name ∈ names) :
    ∃ k, speciesIndex names name = .ok k := by
  obtain ⟨i, hi⟩ := Option.isSome_iff_exists.1 (isSome_idxOf?.2 (mem_reverse.2 h))
  exact ⟨_, by rw [speciesIndex, hi]⟩

lemma isUsed_iff {rows : List Row} : isUsed rows i = true ↔ ∃ r, rows[i]? = some r ∧ true ∈ r := by
  rw [isUsed, getD_eq_getElem?_getD, bne_iff_ne, Row.uses, ← Nat.pos_iff_ne_zero]
  cases rows[i]? with
  | none => simp
  | some r => simp

lemma two_le_countP {l : List ℕ} (h : l.Nodup) (p : ℕ → Bool) :
    2 ≤ l.countP p ↔ ∃ i j, i ≠ j ∧ (i ∈ l ∧ p i = true) ∧ j ∈ l ∧ p j = true := by
  rw [countP_eq_length_filter, ← toFinset_card_of_nodup (h.filter p)]
  refine Finset.one_lt_card_iff.trans (exists₂_congr fun i j => ?_)
  rw [mem_toFinset, mem_toFinset, mem_filter, mem_filter, ← and_assoc, and_comm]

abbrev equation (r : Reaction String α) : List String := r.reactants ++ r.products

def Names (reactions : List (Reaction String α)) (i : ℕ) : Prop := ∃ r, reactions[i]? = some r ∧ equation r ≠ []

def TakesPart (species : List (Species α)) (reactions : List (Reaction String α)) (k : ℕ) : Prop :=
  ∃ r ∈ reactions, ∃ name ∈ equation r, speciesIndex (species.map (·.name)) name = .ok k

section Rows
omit [Arithmetic α]
variable {sp : List (Species α)} {rs : List (Reaction String α)} {members : List (List ℕ)}
  (h : reactionRows (sp.map (·.name)) rs = .ok members)
include h

lemma length_members : members.length = rs.length := (mapM_eq_ok.1 h).length_eq.symm

lemma members_lt {ks : List ℕ} (hks : ks ∈ members) {k : ℕ} (hk : k ∈ ks) : k < sp.length := by
  obtain ⟨r, -, hr⟩ := mapM_mem_inv h hks
  obtain ⟨name, -, hi⟩ := mapM_mem_inv hr hk
  simpa using (speciesIndex_yields _ _ k hi).1

lemma isUsed_flagRows : isUsed (flagRows sp.length members) i = true ↔ Names rs i := by
  rw [isUsed_iff, flagRows]
  simp only [List.getElem?_map, Option.map_eq_some_iff]
  constructor
  · rintro ⟨_, ⟨ks, hks, rfl⟩, hm⟩
    obtain ⟨k, -, hk⟩ := mem_map.1 hm
    obtain ⟨r, hr, hrw⟩ := mapM_getElem?_inv h hks
    obtain ⟨name, hn, -⟩ := mapM_mem_inv hrw (contains_iff_mem.1 hk)
    exact ⟨r, hr, ne_nil_of_mem hn⟩
  · rintro ⟨r, hr, hne⟩
    obtain ⟨ks, hks, hrw⟩ := mapM_getElem? h hr
    obtain ⟨name, hn⟩ := exists_mem_of_ne_nil _ hne
    obtain ⟨k, hk, -⟩ := mapM_mem hrw hn
    have hlt := members_lt h (mem_of_getElem? hks) hk
    exact ⟨_, ⟨ks, hks, rfl⟩, mem_map.2 ⟨k, mem_range.2 hlt, contains_iff_mem.2 hk⟩⟩

lemma isUsed_columnRows {k : ℕ} : isUsed (columnRows sp.length members) k = true ↔ TakesPart sp rs k := by
  rw [isUsed_iff, columnRows]
  simp only [List.getElem?_map, Option.map_eq_some_iff]
  constructor
  · rintro ⟨_, ⟨k', hk', rfl⟩, hm⟩
    obtain ⟨ks, hks, hk⟩ := mem_map.1 hm
    obtain ⟨hlt, rfl⟩ := List.getElem?_eq_some_iff.1 hk'
    rw [getElem_range, contains_iff_mem] at hk
    obtain ⟨r, hr, hrw⟩ := mapM_mem_inv h hks
    obtain ⟨name, hn, hi⟩ := mapM_mem_inv hrw hk
    exact ⟨r, hr, name, hn, hi⟩
  · rintro ⟨r, hr, name, hn, hi⟩
    obtain ⟨ks, hks, hrw⟩ := mapM_mem h hr
    obtain ⟨k', hk, hi'⟩ := mapM_mem hrw hn
    obtain rfl : k = k' := Except.ok.inj (hi.symm.trans hi')
    exact ⟨_, ⟨k, List.getElem?_range (members_lt h hks hk), rfl⟩, mem_map.2 ⟨ks, hks, contains_iff_mem.2 hk⟩⟩

lemma two_le_flagRows :
    2 ≤ ((List.range rs.length).filter fun _ => true).countP (isUsed (flagRows sp.length members)) ↔
      ∃ i j, i ≠ j ∧ Names rs i ∧ Names rs j := by
  have hlt : ∀ i, Names rs i → i ∈ (List.range rs.length).filter fun _ => true := by
    rintro i ⟨r, hr, -⟩
    simpa using (List.getElem?_eq_some_iff.1 hr).1
  simp only [two_le_countP (nodup_range.filter _), isUsed_flagRows h, and_iff_right_of_imp (hlt _)]

lemma two_le_columnRows {last : ℤ} : 2 ≤ ((List.range sp.length).filter fun i : ℕ => (i : ℤ) != last).countP
        (isUsed (columnRows sp.length members)) ↔
      ∃ i j : ℕ, i ≠ j ∧ ((i : ℤ) ≠ last ∧ TakesPart sp rs i) ∧ (j : ℤ) ≠ last ∧ TakesPart sp rs j := by
  have hlt : ∀ k, TakesPart sp rs k → k < sp.length := by
    rintro k ⟨r, -, name, -, hin⟩
    simpa using (speciesIndex_yields _ _ k hin).1
  have hmem : ∀ k : ℕ, (k < sp.length ∧ (k : ℤ) ≠ last) ∧ TakesPart sp rs k ↔ (k : ℤ) ≠ last ∧ TakesPart sp rs k :=
    fun k => ⟨fun hk => ⟨hk.1.2, hk.2⟩, fun hk => ⟨⟨hlt k hk.2, hk.1⟩, hk.2⟩⟩
  simp only [two_le_countP (nodup_range.filter _), isUsed_columnRows h, mem_filter, mem_range, bne_iff_ne, hmem]

end Rows

/-! ## Maps -/

variable {f : List ℕ}

/-- The positions of the numbers in an order are the inverse order. -/
lemma inverseOrders_idxOf (hf : f.Perm (List.range n)) : InverseOrders n f ((List.range n).map (f.idxOf ·)) := by
  apply InverseOrders.of_perm hf
  have hn : f.Nodup := hf.nodup_iff.2 nodup_range
  intro i j
  rw [List.getElem?_map, Option.map_eq_some_iff]
  constructor
  · intro h
    obtain ⟨hi, rfl⟩ := List.getElem?_eq_some_iff.1 h
    have hm : f[i] < n := mem_range.1 (hf.subset (getElem_mem hi))
    exact ⟨f[i], List.getElem?_range hm, hn.idxOf_getElem i hi⟩
  · rintro ⟨k, hk, rfl⟩
    obtain ⟨hj, rfl⟩ := List.getElem?_eq_some_iff.1 hk
    rw [length_range] at hj
    rw [getElem_range] at *
    have hm : j ∈ f := hf.mem_iff.2 (mem_range.2 hj)
    rw [List.getElem?_eq_getElem (idxOf_lt_length_of_mem hm), getElem_idxOf]

lemma idxOf?_of_mem {i : ℕ} (h : i ∈ f) : f.idxOf? i = some (f.idxOf i) := by
  rw [List.idxOf?_eq_some_iff]
  refine ⟨idxOf_lt_length_of_mem h, getElem_idxOf _, fun j hj => ?_⟩
  simpa using not_of_lt_findIdx hj

lemma positions_eq (hf : f.Perm (List.range n)) :
    positions (f.map Int.ofNat) = .ok ((List.range n).map (f.idxOf ·)) := by
  have hl : (f.map Int.ofNat).length = n := by simpa using hf.length_eq
  unfold positions
  rw [hl]
  refine mapM_eq_ok_map fun i hi => ?_
  have hin : (f.map Int.ofNat).idxOf? (i : ℤ) = f.idxOf? i := by
    unfold List.idxOf?
    rw [List.findIdx?_map]
    congr 1
    funext j
    simp
  rw [hin, idxOf?_of_mem (hf.mem_iff.2 hi)]

lemma positions_of_neg (hf : f.Perm (List.range n)) {last : ℤ} (hlast : last < 0) :
    positions (f.map Int.ofNat ++ [last]) = .error .notListed := by
  have hl : (f.map Int.ofNat ++ [last]).length = n + 1 := by simpa using hf.length_eq
  unfold positions
  rw [hl, range_succ]
  refine mapM_eq_error (fun i hi => ?_) ?_
  · have hm : (i : ℤ) ∈ f.map Int.ofNat ++ [last] := mem_append_left _ (mem_map_of_mem (hf.mem_iff.2 hi))
    obtain ⟨k, hk⟩ := Option.isSome_iff_exists.1 (isSome_idxOf?.2 hm)
    exact ⟨k, by rw [hk]⟩
  · have hno : (n : ℤ) ∉ f.map Int.ofNat ++ [last] := by
      intro hm
      rcases mem_append.1 hm with hm | hm
      · obtain ⟨i, hi, heq⟩ := mem_map.1 hm
        have hlt := mem_range.1 (hf.mem_iff.1 hi)
        have : (i : ℤ) = n := heq
        omega
      · rw [mem_singleton] at hm
        omega
    rw [List.idxOf?_eq_none_iff.2 hno]

/-- A reordered mechanism whose maps are inverse to each other. -/
structure Reordered.Sound (o : Reordered α) : Prop where
  species : ∃ f : List ℕ, o.speciesForward = f.map Int.ofNat ∧ InverseOrders o.species.length f o.speciesBackward
  reactions : InverseOrders o.reactions.length o.reactionsForward o.reactionsBackward

/-- The order that is kept, if there is one, is sound. -/
def Desk.Sound (d : Desk α) : Prop := ∀ o, d.kept = some o → o.Sound

/-- The lists are those of a mechanism in the order of the maps, which are inverse to each other. -/
structure Reordered.Arranges (o : Reordered α) (species : List (Species α))
    (reactions : List (Reaction String α)) (f : List ℕ) : Prop where
  forward : o.speciesForward = f.map Int.ofNat
  speciesMaps : InverseOrders species.length f o.speciesBackward
  reactionMaps : InverseOrders reactions.length o.reactionsForward o.reactionsBackward
  species : o.species = permuted f species
  reactions : o.reactions = permuted o.reactionsForward reactions

/-! ## Mechanisms that can be put into an order -/

/-- A mechanism that can be put into an order: it lists what it names, two of its reactions have species, and two
species other than the last one take part. -/
structure Orderable (e : Effort) (species : List (Species α)) (reactions : List (Reaction String α)) (last : ℤ) :
    Prop where
  nonneg : 0 ≤ last
  last_lt : last < species.length
  listed : ∀ r ∈ reactions, ∀ name ∈ equation r, name ∈ species.map (·.name)
  colliders : e.considerThirdBodies = true → ∀ r ∈ reactions, ∀ x ∈ r.efficiencies, x.1 ∈ species.map (·.name)
  twoReactions : ∃ i j, i ≠ j ∧ Names reactions i ∧ Names reactions j
  twoSpecies : ∃ i j : ℕ, i ≠ j ∧ ((i : ℤ) ≠ last ∧ TakesPart species reactions i) ∧
    (j : ℤ) ≠ last ∧ TakesPart species reactions j

/-- What a search needs besides a mechanism: a search to make, intervals with members to draw from, a source that
varies, and quotients. -/
structure Provided (src : Source) (e : Effort) (species : List (Species α)) (reactions : List (Reaction String α)) :
    Prop where
  tries : 0 < e.tries
  reach : e.reach ≠ 0
  rounds : e.rounds ≠ 0
  patience : e.patience ≠ 0
  reactionsVary : src.Varies reactions.length
  speciesVary : src.Varies (species.length - 1)
  divides : Divides α (max species.length reactions.length)

/-- Every search takes at least one step. -/
structure Effort.Thorough (e : Effort) : Prop where
  rounds : 0 < e.rounds
  patience : 1 < e.patience

lemma Effort.plan_draws (src : Source) (e : Effort) : Draws (fun p => e.Thorough → p.Steps e.tries.toNat)
    (¬(e.reach ≠ 0 ∧ e.rounds ≠ 0 ∧ e.patience ≠ 0)) (e.plan src) := by
  refine (src.several_draws _ _ _).bind (by omega) fun reaches _ => ?_
  refine (src.several_draws _ _ _).bind (by omega) fun rounds hr => ?_
  have hp : Int.tdiv (3 * e.patience) 2 = Int.tdiv e.patience 2 → e.patience = 0 := by
    rw [Int.tdiv_eq_ediv, Int.tdiv_eq_ediv]
    split <;> split <;> omega
  refine (src.several_draws _ _ _).bind (fun h hn => hn.2.2 (hp h)) fun patiences hp => meets_pure fun h i hi => ?_
  obtain ⟨hrn, hpt⟩ := h
  have hl : 1 ≤ Int.tdiv e.patience 2 := by
    rw [Int.tdiv_eq_ediv_of_nonneg (by omega)]
    omega
  have hh : Int.tdiv e.patience 2 < Int.tdiv (3 * e.patience) 2 := by
    rw [Int.tdiv_eq_ediv_of_nonneg (by omega), Int.tdiv_eq_ediv_of_nonneg (by omega)]
    omega
  have := hr (by omega) i (by omega)
  have := hp hh i (by omega)
  dsimp only
  omega

/-! ## Steps of a reordering -/

section Desk
omit [Arithmetic α]
variable {β : Type} {k : Option (Reordered α)}

def Desk.Keeps (k : Option (Reordered α)) (d : Desk α) : Prop := d.kept = k

lemma runFrom_chance (c : Chance β) (d : Desk α) : runFrom (chance c) d =
    ((runFrom c d.source).1, { d with source := (runFrom c d.source).2 }) := rfl

lemma chance_meets {P : β → Prop} {fault : Prop} {c : Chance β} (hc : Draws P fault c) :
    Meets (Desk.Keeps k) P fault (chance c : Optimizer α β) := by
  intro d hd
  obtain ⟨hr, hf⟩ := hc d.source trivial
  constructor
  · intro b d' h
    obtain ⟨hb, rfl⟩ := Prod.mk.inj ((runFrom_chance c d).symm.trans h)
    exact ⟨hd, (hr b _ (Prod.ext hb rfl)).2⟩
  · intro e d' h
    obtain ⟨he, rfl⟩ := Prod.mk.inj ((runFrom_chance c d).symm.trans h)
    exact ⟨hd, (hf e _ (Prod.ext he rfl)).2⟩

lemma report_meets (line : String) :
    Meets (Desk.Keeps k) (fun _ => True) False (report line : Optimizer α Unit) := by
  intro d hd
  constructor
  · rintro b d' ⟨⟩
    exact ⟨hd, trivial⟩
  · rintro e d' ⟨⟩

end Desk

variable {k : Option (Reordered α)}

lemma bestOf_meets (what : String) (time : ℤ) {results : List (α × List ℕ)} {P : List ℕ → Prop}
    (h : ∀ r ∈ results, P r.2) : Meets (Desk.Keeps k) P (results = []) (bestOf what time results) := by
  unfold bestOf
  extract_lets rest said
  have hr : ∀ u, Meets (Desk.Keeps k) P (results = []) (rest u) := by
    intro u
    unfold rest
    split
    · next hf => exact meets_pure (h _ (greatest_mem hf))
    · next hf =>
      refine meets_throw _ (not_not.1 fun hne => ?_)
      obtain ⟨best, hb⟩ := greatest_of_ne_nil hne
      cases hf.symm.trans hb
  have hs : ∀ u, Meets (Desk.Keeps k) P (results = []) (said u) :=
    fun u => (report_meets _).bind False.elim fun _ _ => hr ()
  split
  · split
    · next he => exact (meets_throw (P := fun _ => True) _ (isEmpty_iff.1 he)).bind id fun u _ => hs u
    · exact hs ()
  · exact hr ()

/-- A sound order for a mechanism of the same size and with the same names. -/
structure Reordered.Fits (o : Reordered α) (species : List (Species α))
    (reactions : List (Reaction String α)) : Prop where
  sound : o.Sound
  names : ∀ sp ∈ o.species, ∃ sp' ∈ species, sp.name = sp'.name
  speciesCount : o.species.length = species.length
  reactionCount : o.reactions.length = reactions.length

section Arranged
omit [Arithmetic α]
variable {β : Type}

lemma entryFrom_ofNat (xs : List β) (i : ℕ) : entryFrom xs (i : ℤ) = entryAt xs i := by
  unfold entryFrom
  rfl

lemma entryFrom_bounds {xs : List β} {i : ℤ} {x : β} (h : entryFrom xs i = .ok x) : i < xs.length := by
  unfold entryFrom at h
  extract_lets k at h
  split at h
  · cases h
  · next hk =>
    have he := (List.getElem?_eq_some_iff.1 (entryAt_eq_ok.1 h)).1
    omega

lemma mapM_entryAt {xs ys : List β} (h : f.mapM (entryAt xs) = .ok ys) : ys = permuted f xs := by
  have ha := mapM_eq_ok.1 h
  clear h
  induction ha with
  | nil => rfl
  | cons hy _ ih => rw [permuted, filterMap_cons, entryAt_eq_ok.1 hy, ih, permuted]

lemma Reordered.Arranges.fits {o : Reordered α} {species : List (Species α)}
    {reactions : List (Reaction String α)} (h : o.Arranges species reactions f) :
    o.Fits species reactions := by
  have hs : o.species.length = species.length := by
    rw [h.species, h.speciesMaps.length_permuted rfl]
  have hr : o.reactions.length = reactions.length := by
    rw [h.reactions, h.reactionMaps.length_permuted rfl]
  refine ⟨⟨⟨f, h.forward, hs ▸ h.speciesMaps⟩, hr ▸ h.reactionMaps⟩, ?_, hs, hr⟩
  intro sp hsp
  rw [h.species] at hsp
  obtain ⟨i, -, hi⟩ := mem_filterMap.1 hsp
  exact ⟨sp, mem_of_getElem? hi, rfl⟩

end Arranged

/-! ## Reordering -/

section Entries
omit [Arithmetic α]
variable {β : Type} {xs : List β} {order : List ℕ}

lemma entryAt_of_lt (h : i < xs.length) : ∃ x, entryAt xs i = .ok x :=
  ⟨_, entryAt_eq_ok.2 (List.getElem?_eq_getElem h)⟩

lemma entryFrom_of_mem (h : order.Perm (List.range xs.length)) {i : ℤ}
    (hi : i ∈ order.map Int.ofNat) : ∃ x, entryFrom xs i = .ok x := by
  obtain ⟨k, hk, rfl⟩ := mem_map.1 hi
  obtain ⟨x, hx⟩ := entryAt_of_lt (mem_range.1 (h.mem_iff.1 hk))
  exact ⟨x, (entryFrom_ofNat xs k).trans hx⟩

end Entries

section Optimizing
variable {species : List (Species α)} {reactions : List (Reaction String α)} {last : ℤ}

/-- A position that is left out of a search and put at the end makes the order complete. -/
lemma append_excluded_perm {n j : ℕ} (hj : j < n) {best : List ℕ}
    (hb : best.Perm ((List.range n).filter fun i => (i : ℤ) != Int.ofNat j)) :
    (best ++ [j]).Perm (List.range n) := by
  have hk : (fun i : ℕ => (i : ℤ) != Int.ofNat j) = (· != j) := by
    funext i
    rw [Bool.eq_iff_iff]
    simp
  rw [hk] at hb
  exact (hb.append_right [j]).trans (forwardMap_perm hj)

section Orderable
omit [Arithmetic α]
variable {e : Effort} {members : List (List ℕ)} (h : Orderable e species reactions last)
  (hmembers : reactionRows (species.map (·.name)) reactions = .ok members)
include h hmembers

lemma Orderable.flagRows_sought : Sought (flagRows species.length members) (max species.length reactions.length)
    ((List.range reactions.length).filter fun _ => true) := by
  refine ⟨⟨species.length, le_max_left _ _, ?_⟩, ?_, ?_, (two_le_flagRows hmembers).2 h.twoReactions⟩
  · simp [flagRows]
  · simp [flagRows, length_members hmembers]
  · simp

lemma Orderable.columnRows_sought : Sought (columnRows species.length members)
    (max species.length reactions.length) ((List.range species.length).filter fun i : ℕ => (i : ℤ) != last) := by
  refine ⟨⟨reactions.length, le_max_right _ _, ?_⟩, ?_, ?_, (two_le_columnRows hmembers).2 h.twoSpecies⟩
  · simp [columnRows, length_members hmembers]
  · simp +contextual [columnRows]
  · exact (length_filter_le _ _).trans (by simp)

end Orderable

/-- The searches for an order of a mechanism have what they need. -/
lemma Provided.ready {src : Source} {e : Effort} {members : List (List ℕ)} (hp : Provided src e species reactions)
    (h : Orderable e species reactions last) (hmembers : reactionRows (species.map (·.name)) reactions = .ok members) :
    Ready α src (flagRows species.length members) (max species.length reactions.length)
        ((List.range reactions.length).filter fun _ => true) ∧
      Ready α src (columnRows species.length members) (max species.length reactions.length)
        ((List.range species.length).filter fun i : ℕ => (i : ℤ) != last) := by
  obtain ⟨j, rfl⟩ := Int.eq_ofNat_of_zero_le h.nonneg
  refine ⟨⟨h.flagRows_sought hmembers, by simpa using hp.reactionsVary, hp.divides⟩,
    ⟨h.columnRows_sought hmembers, ?_, hp.divides⟩⟩
  have hcount := (append_excluded_perm (by exact_mod_cast h.last_lt) (.refl _)).length_eq
  rw [length_append, length_singleton, length_range] at hcount
  have hrs := hp.speciesVary
  rwa [← hcount] at hrs

/-- A search gives the mechanism itself in another order, with the chosen species at the end. It gives one if the
mechanism can be put into an order, and only then if every search takes a step. -/
lemma reorder_ends (src : Source) (e : Effort) : Ends (Desk.Keeps k) (reorder src e species reactions last)
    (fun o d => d.kept = some o ∧ (∃ f, o.Arranges species reactions f ∧ o.speciesForward.getLast? = some last) ∧
      (e.Thorough → Orderable e species reactions last))
    (¬(Provided src e species reactions ∧ Orderable e species reactions last)) := by
  unfold reorder
  extract_lets names n tries
  refine (meets_lift fun h : Provided src e species reactions ∧ Orderable e species reactions last => ?_).bind id
    fun first hfs => ?_
  · obtain ⟨j, rfl⟩ := Int.eq_ofNat_of_zero_le h.2.nonneg
    have hj : j < species.length := by exact_mod_cast h.2.last_lt
    obtain ⟨sp, hsp⟩ := entryAt_of_lt hj
    exact ⟨sp, (entryFrom_ofNat species j).trans hsp⟩
  refine (meets_lift fun h : Provided src e species reactions ∧ Orderable e species reactions last => ?_).bind id
    fun members hmembers => ?_
  · exact mapM_ok fun r hr => mapM_ok fun name hn => speciesIndex_ok (h.2.listed r hr name hn)
  have hls : ∀ r ∈ reactions, ∀ name ∈ equation r, name ∈ names := by
    intro r hr name hnm
    obtain ⟨ks, -, hrw⟩ := mapM_mem hmembers hr
    obtain ⟨k, -, hi⟩ := mapM_mem hrw hnm
    exact (speciesIndex_yields names name k hi).2
  have hne : ∀ {found : List (α × List ℕ)}, found.length = tries → found = [] →
      ¬(Provided src e species reactions ∧ Orderable e species reactions last) := by
    rintro found hln rfl h
    have htr := h.1.tries
    simp only [length_nil, tries] at hln
    omega
  extract_lets rest
  have hr : (e.considerThirdBodies = true → ∀ r ∈ reactions, ∀ x ∈ r.efficiencies, x.1 ∈ names) → ∀ u,
      Ends (Desk.Keeps k) (rest u) (fun o d => d.kept = some o ∧
        (∃ f, o.Arranges species reactions f ∧ o.speciesForward.getLast? = some last) ∧
        (e.Thorough → Orderable e species reactions last))
      (¬(Provided src e species reactions ∧ Orderable e species reactions last)) := by
    intro hc u
    refine (chance_meets (Effort.plan_draws src e)).bind (mt fun h => ⟨h.1.reach, h.1.rounds, h.1.patience⟩)
      fun plan hp => ?_
    refine (chance_meets (searches_draws _ _ _ _ _ _)).bind (mt fun h => (h.1.ready h.2 hmembers).1) fun found hf => ?_
    refine (bestOf_meets _ _ hf.2).bind (hne hf.1) fun forward hfw => ?_
    refine (chance_meets (searches_draws _ _ _ _ _ _)).bind (mt fun h => (h.1.ready h.2 hmembers).2) fun found hf => ?_
    refine (bestOf_meets _ _ hf.2).bind (hne hf.1) fun best hbs => ?_
    have hrs : forward.Perm (List.range reactions.length) := by simpa using hfw.perm
    cases last with
    | negSucc j =>
      -- nothing is left out of the search, and no position is listed for the negative number
      have ha : best.Perm (List.range species.length) := by
        have hkp : (fun i : ℕ => (i : ℤ) != Int.negSucc j) = fun _ => true := by
          funext i
          rfl
        have hb := hbs.perm
        rw [hkp, filter_true] at hb
        exact hb
      refine (meets_lift (A := 0 ≤ Int.negSucc j) fun h => absurd h (Int.negSucc_lt_zero j).not_ge).bind
        (mt fun h => h.2.nonneg) fun backward hb => ?_
      rw [positions_of_neg ha (Int.negSucc_lt_zero j)] at hb
      cases hb
    | ofNat j =>
      have hj : j < species.length := by
        have := entryFrom_bounds hfs
        simpa using this
      have hs := append_excluded_perm hj hbs.perm
      have hm : best.map Int.ofNat ++ [Int.ofNat j] = (best ++ [j]).map Int.ofNat := by simp
      dsimp only
      rw [hm]
      obtain ⟨placed, hpl⟩ := mapM_ok fun i hi => entryFrom_of_mem hs hi
      obtain ⟨placedReactions, hpr⟩ := mapM_ok fun i hi => entryAt_of_lt (mem_range.1 (hrs.mem_iff.1 hi))
      refine ends_lift_bind (positions_eq hs) (ends_lift_bind (positions_eq hrs) ?_)
      refine ends_lift_bind hpl (ends_lift_bind hpr ?_)
      rw [mapM_map] at hpl
      have he : entryFrom species ∘ Int.ofNat = entryAt species := funext (entryFrom_ofNat species)
      intro d hd
      constructor
      · rintro o d' ⟨⟩
        refine ⟨rfl, ⟨best ++ [j], ?_, by simp⟩, fun he => ⟨Int.natCast_nonneg j, Int.ofNat_lt.2 hj, hls, hc, ?_, ?_⟩⟩
        · exact ⟨rfl, inverseOrders_idxOf hs, inverseOrders_idxOf hrs, mapM_entryAt hpl, mapM_entryAt hpr⟩
        · exact (two_le_flagRows hmembers).1 (hfw.two (hp he))
        · exact (two_le_columnRows hmembers).1 (hbs.two (hp he))
      · rintro f d' ⟨⟩
  split
  · next ht =>
    refine (meets_forIn (Q := fun r => ∀ x ∈ r.efficiencies, x.1 ∈ names) fun r hr => ?_).bind id fun u hal =>
      hr (fun _ => hal) u
    refine (meets_mapM (Q := fun x => x.1 ∈ names) (P := fun _ => True) fun x hx => ?_).bind id fun _ h =>
      meets_pure ⟨rfl, h.1⟩
    refine (meets_lift fun h : Provided src e species reactions ∧ Orderable e species reactions last => ?_).imp
      (fun k hk => ⟨(speciesIndex_yields names x.1 k hk).2, trivial⟩) id
    exact speciesIndex_ok (h.2.colliders ht r hr x hx)
  · next ht => exact hr (fun h => absurd h ht) ()

/-- A kept order can be used: it was found for a mechanism that resembles the given one, with the same species at
the end. -/
def Reordered.Usable (old : Reordered α) (species : List (Species α)) (reactions : List (Reaction String α))
    (last : ℤ) : Prop :=
  old.suits species reactions = true ∧ old.otherLast species last = .ok none

lemma reuse_meets : Meets (Desk.Keeps k)
    (fun found => ∀ old, found = some old ↔ k = some old ∧ old.Usable species reactions last) False
    (reuse species reactions last) := by
  have hn : (∀ old, k = some old → ¬old.Usable species reactions last) →
      Meets (Desk.Keeps k) (fun found => ∀ old, found = some old ↔ k = some old ∧ old.Usable species reactions last)
        False (pure none : Optimizer α (Option (Reordered α))) := by
    intro hno
    refine meets_pure fun old => ?_
    simp only [reduceCtorEq, false_iff, not_and]
    exact hno old
  refine (report_meets _).bind id fun _ _ => ?_
  extract_lets notFound
  refine meets_get.bind id fun desk hds => ?_
  split
  · next hk =>
    refine (report_meets _).bind id fun _ _ => hn fun old hol => ?_
    cases hk.symm.trans (hds.trans hol)
  · next old hk =>
    have hon : ∀ other, k = some other → other = old :=
      fun other hot => Option.some.inj (hot.symm.trans (hds.symm.trans hk))
    split
    · next hot =>
      refine (report_meets _).bind id fun _ _ => hn fun o ho hu => ?_
      rw [hon o ho, Reordered.Usable, hot] at hu
      cases hu.2
    · next hot =>
      refine (report_meets _).bind id fun _ _ => (report_meets _).bind id fun _ _ => hn fun o ho hu => ?_
      rw [hon o ho, Reordered.Usable, hot] at hu
      cases hu.2
    · next hot =>
      split
      · next hs =>
        refine (report_meets _).bind id fun _ _ => meets_pure fun o => ?_
        constructor
        · rintro ⟨⟩
          exact ⟨hds.symm.trans hk, hs, hot⟩
        · rintro ⟨ho, -⟩
          rw [hon o ho]
      · next hs =>
        refine hn fun o ho hu => ?_
        rw [hon o ho] at hu
        exact hs hu.1

/-- A kept order is used if that is allowed and possible; otherwise there is a search. -/
lemma optimize_ends (src : Source) (e : Effort) (force : Bool) :
    Ends (Desk.Keeps k) (optimize src e species reactions last force) (fun o d => d.kept = some o ∧
        (force = false ∧ k = some o ∧ o.Usable species reactions last ∨
          (force = false → ∀ old, k = some old → ¬old.Usable species reactions last) ∧
            (∃ f, o.Arranges species reactions f ∧ o.speciesForward.getLast? = some last) ∧
            (e.Thorough → Orderable e species reactions last)))
      (¬(Provided src e species reactions ∧ Orderable e species reactions last) ∧
        (force = false → ∀ old, k = some old → ¬old.Usable species reactions last)) := by
  refine (report_meets _).bind False.elim fun _ _ => ?_
  cases force with
  | true => exact (reorder_ends src e).imp (fun o d h => ⟨h.1, .inr ⟨by simp, h.2⟩⟩) fun h => ⟨h, by simp⟩
  | false =>
    refine reuse_meets.bind False.elim fun found hf => ?_
    cases found with
    | some old =>
      obtain ⟨hs, hu⟩ := (hf old).1 rfl
      exact ends_pure fun d hd => ⟨hd.trans hs, .inl ⟨rfl, hs, hu⟩⟩
    | none =>
      have hn : ∀ old, k = some old → ¬old.Usable species reactions last := by
        intro old ho hu
        cases (hf old).2 ⟨ho, hu⟩
      exact (reorder_ends src e).imp (fun o d h => ⟨h.1, .inr ⟨fun _ => hn, h.2⟩⟩) fun h => ⟨h, fun _ => hn⟩

lemma optimize_fits (src : Source) (e : Effort) (force : Bool) :
    Ends Desk.Sound (optimize src e species reactions last force)
      (fun o d => o.Fits species reactions ∧ d.kept = some o) True := by
  intro d hd
  obtain ⟨hr, hf⟩ := optimize_ends src e force d (rfl : d.Keeps d.kept)
  constructor
  · intro o d' h
    obtain ⟨hk, ⟨-, hsm, hu⟩ | ⟨-, ⟨f, ha, -⟩, -⟩⟩ := hr o d' h
    · obtain ⟨hs, -⟩ := hu
      simp only [Reordered.suits, Bool.and_eq_true, beq_iff_eq, all_eq_true] at hs
      refine ⟨⟨hd o hsm, fun sp hsp => ?_, hs.1.1.2.symm, hs.2.symm⟩, hk⟩
      obtain ⟨sp', hs', hl⟩ := any_eq_true.1 (hs.1.1.1 sp hsp)
      simp only [Species.resembles, Bool.and_eq_true, beq_iff_eq] at hl
      exact ⟨sp', hs', hl.1.1.1.1.1⟩
    · exact ⟨ha.fits, hk⟩
  · intro fault d' h
    exact ⟨fun o ho => hd o ((hf fault d' h).1.symm.trans ho), trivial⟩

end Optimizing

end Kinetics.Ordering

namespace Kinetics.Generation

open Workspace Kinetics.Ordering

/-! ## Orders that are kept -/

def SoundOrders (st : State) : Prop := ∀ p ∈ st.orders, p.2.Sound

def keptOrder (host : Host) (build : String) (st : State) : Option (Reordered Scalar) :=
  st.orders.lookup ((st.folder.locate host.here build).toOption.getD [])

/-- The desk at which a mechanism is reordered for a folder. -/
def deskFor (host : Host) (build : String) (st : State) : Desk Scalar where
  source := st.random
  kept := keptOrder host build st

def leaveDesk (host : Host) (build : String) (st : State) (d : Desk Scalar) : State :=
  let place := (st.folder.locate host.here build).toOption.getD []
  { st with
    random := d.source
    orders := d.kept.elim st.orders fun o => (place, o) :: st.orders.filter (·.1 != place)
    session := { st.session with said := st.session.said ++ d.said } }

section Optimized
variable {host : Host} {build : String} {st : State}

lemma start_optimize {β : Type} (x : Random.Source → Optimizer Scalar β) : (Job.optimize build x).start host st =
      ((runFrom (x host.chance) (deskFor host build st)).1,
        leaveDesk host build st (runFrom (x host.chance) (deskFor host build st)).2) := rfl

lemma deskFor_sound (hst : SoundOrders st) : (deskFor host build st).Sound := by
  intro o ho
  obtain ⟨before, after, hs, -⟩ := lookup_eq_some_iff.1 ho
  exact hst ((st.folder.locate host.here build).toOption.getD [], o) (by simp [hs])

variable {d : Desk Scalar}

lemma leaveDesk_sound (hst : SoundOrders st) (hd : d.Sound) : SoundOrders (leaveDesk host build st d) := by
  unfold leaveDesk SoundOrders
  dsimp only
  cases hk : d.kept with
  | none => exact hst
  | some o =>
    rw [Option.elim_some, forall_mem_cons]
    exact ⟨hd o hk, fun p hp => hst p (mem_filter.1 hp).1⟩

lemma keptOrder_leaveDesk {o : Reordered Scalar} (h : d.kept = some o) :
    keptOrder host build (leaveDesk host build st d) = some o := by
  unfold keptOrder leaveDesk
  dsimp only
  rw [h, Option.elim_some, lookup_cons_self]

end Optimized

/-- An arrangement by sound maps: `f` gives the former position of each species of the code, `g` the
position in the code of each species, and `rf` the former position of each reaction of the code. -/
structure Arranged (m : Reading.Mechanism) (last : ℕ) (a : Arrangement) (f g rf : List ℕ) : Prop where
  forward : a.order.forward = f.map Int.ofNat
  backward : a.order.backward = g.map Int.ofNat
  reactionMap : a.reactionMap = rf.map Int.ofNat
  last : a.order.last = some (last : ℤ)
  species : InverseOrders m.species.length f g
  reactions : rf.Perm (List.range m.reactions.length)
  names : ∀ sp ∈ a.species, ∃ sp' ∈ m.species, sp.name = sp'.name
  speciesCount : a.species.length = m.species.length
  reactionCount : a.reactions.length = m.reactions.length

/-- Where the maps of an arrangement can be found again: with the order that is kept, or from the
last species alone. -/
inductive Traced (m : Reading.Mechanism) (last : ℕ) (a : Arrangement) (f g rf : List ℕ) :
    Option (Reordered Scalar) → Prop
  | searched {o : Reordered Scalar} (hoptimized : a.order.optimized = true)
      (hforward : o.speciesForward = f.map Int.ofNat) (hbackward : o.speciesBackward = g)
      (hreactions : o.reactionsForward = rf) : Traced m last a f g rf (some o)
  | moved {kept : Option (Reordered Scalar)} (hoptimized : a.order.optimized = false)
      (hforward : f = forwardMap m.species.length last)
      (hbackward : g = backwardMap m.species.length last)
      (hreactions : rf = List.range m.reactions.length) : Traced m last a f g rf kept

section Arranging
variable {s : Settings} {m : Reading.Mechanism} {last : ℕ} (hlast : last < m.species.length)
include hlast

lemma movedLast_arranged : Arranged m last (movedLast m last) (forwardMap m.species.length last)
      (backwardMap m.species.length last) (List.range m.reactions.length) where
  forward := rfl
  backward := rfl
  reactionMap := rfl
  last := rfl
  species := lastSpeciesMaps_inverse hlast
  reactions := .refl _
  names := by
    intro sp hsp
    obtain ⟨i, -, hi⟩ := mem_filterMap.1 hsp
    exact ⟨sp, mem_of_getElem? hi, rfl⟩
  speciesCount := (lastSpeciesMaps_inverse hlast).length_permuted rfl
  reactionCount := rfl

/-- Every arrangement is sound and can be traced, and the orders that are kept stay sound, also if
there is no arrangement. -/
lemma arrange_sound {host : Host} {st st' : State} (hst : SoundOrders st)
    {r : Except Fault Arrangement} (h : (arrange s m last).start host st = (r, st')) :
    SoundOrders st' ∧ ∀ a, r = .ok a →
      ∃ f g rf, Arranged m last a f g rf ∧ Traced m last a f g rf (keptOrder host s.build st') := by
  cases hs : s.optimize with
  | false =>
    rw [arrange_unsearched hs hlast] at h
    cases h
    refine ⟨hst, ?_⟩
    rintro a ⟨⟩
    exact ⟨_, _, _, movedLast_arranged hlast, .moved rfl rfl rfl rfl⟩
  | true =>
    obtain ⟨hrs, hfl⟩ := optimize_fits host.chance {} s.force (deskFor host s.build st) (deskFor_sound hst)
    unfold arrange at h
    rw [hs, if_pos rfl] at h
    have hj := @start_optimize host s.build st _ fun src =>
      optimize src {} m.species m.reactions last s.force
    rcases hrn : runFrom (optimize host.chance {} m.species m.reactions last s.force)
      (deskFor host s.build st) with ⟨e | o, d⟩
    · rw [hrn] at hj
      rw [Job.start_bind_of_error hj] at h
      cases h
      exact ⟨leaveDesk_sound hst (hfl e d hrn).1, fun a ha => by cases ha⟩
    · rw [hrn] at hj
      rw [Job.start_bind_of_ok hj] at h
      cases h
      obtain ⟨hf, hk⟩ := hrs o d hrn
      have hd : d.Sound := by
        intro o' ho'
        cases hk.symm.trans ho'
        exact hf.sound
      refine ⟨leaveDesk_sound hst hd, ?_⟩
      rintro a ⟨⟩
      obtain ⟨f, hfw, hi⟩ := hf.sound.species
      have hr := hf.sound.reactions.forward
      rw [hf.speciesCount] at hi
      rw [hf.reactionCount] at hr
      refine ⟨f, o.speciesBackward, o.reactionsForward, ?_, ?_⟩
      · exact ⟨hfw, rfl, rfl, rfl, hi, hr, hf.names, hf.speciesCount, hf.reactionCount⟩
      · rw [keptOrder_leaveDesk hk]
        exact .searched rfl hfw rfl rfl

end Arranging

end Kinetics.Generation
