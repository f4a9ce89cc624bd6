import Kinetics.Jacobian.Files
import Kinetics.Proofs.ReactionLoop
import Kinetics.Proofs.StaleMemory
/-!
# What the parts of a Jacobian update

The reaction loop assigns an entry of the matrix when it meets the species for the first time and
adds to it afterwards (`reactionRun_tracks`). The finishing statements add to entries that the
loop has assigned, and they update the temperature row: the first species assigns and the others
subtract, but a species without entries and without production is left out
(`finishRun_updates`).
-/

open List

namespace Kinetics.Code

/-! ## Code that leaves the matrix alone -/

section Free
variable {a : Expr Exact} {i : Item Exact} {s : Step Exact}

def Expr.Free (e : Expr Exact) : Prop := ∀ p ∈ e.reads, p.inMatrix = false

/-- The statement neither reads nor updates an entry of the matrix. -/
def Step.Free (s : Step Exact) : Prop := (∀ p ∈ s.reads, p.inMatrix = false) ∧ ∀ u ∈ s.updates, u.1.inMatrix = false

/-- The item neither reads nor updates an entry of the matrix. -/
def Item.Free (i : Item Exact) : Prop := (∀ p ∈ i.reads, p.inMatrix = false) ∧ ∀ u ∈ i.updates, u.1.inMatrix = false

/-- Code of the grammar has no names of the matrix. -/
structure Grammar.Spares (G : Grammar) : Prop where
  plain : ¬G.foreign
  strict : ¬(G.flawed ∧ G.calls)
  named : ∀ name, G.names name ∨ G.sources name → name ≠ "jac" ∧ name ≠ "J_nplusjplus"

lemma workGrammar_spares : workGrammar.Spares where
  plain := id
  strict := And.right
  named _ h := h.elim (fun h => ⟨ne_of_mem_of_not_mem h (by decide), ne_of_mem_of_not_mem h (by decide)⟩) False.elim

lemma calmGrammar_spares (calls : Prop) : (calmGrammar calls).Spares where
  plain := id
  strict := And.left
  named _ h := h.resolve_right id

variable {G : Grammar} (hG : G.Spares)

include hG

lemma Grammar.Spares.inMatrix {array : String} (h : G.names array ∨ G.sources array) (index : Option ℤ) :
    (Place.cell array index).inMatrix = false := by
  obtain ⟨hj, hl⟩ := hG.named array h
  cases index <;> simp [Place.inMatrix, hj, hl]

lemma Expr.Fits.free (h : a.Fits G) : a.Free := by
  intro p hp
  obtain ⟨c, hc, rfl⟩ := mem_map.1 hp
  obtain ⟨array, ha, index, hpl⟩ := h.places hG.plain _ (cell_mem_reads.1 hp)
  exact hpl ▸ hG.inMatrix ha index

lemma Step.Fits.free (h : s.Fits G) : s.Free := by
  refine ⟨?_, fun u hu => ?_⟩
  · cases s with
    | assign => exact h.2.free hG
    | declare _ _ _ _ value =>
      cases value with
      | none => exact forall_mem_nil _
      | some e => exact (h.2.2 e rfl).free hG
    | _ => exact forall_mem_nil _
  · obtain ⟨array, ha, index, hp⟩ := h.writes hG.plain hG.strict (s.map_updates ▸ mem_map_of_mem hu)
    exact hp ▸ hG.inMatrix (.inl ha) index

lemma Item.Fits.free (h : i.Fits G) : i.Free := by
  have hr : ∀ c : Condition Exact, c.read.inMatrix = false := fun c => by cases c <;> rfl
  refine ⟨?_, fun u hu => ?_⟩
  · cases i with
    | step s => exact (Step.Fits.free hG h).1
    | split =>
      refine forall_mem_cons.2 ⟨hr _, forall_mem_flatMap.2 fun s hs => (Step.Fits.free hG ?_).1⟩
      exact h.steps s hs
    | choice =>
      refine forall_mem_flatMap.2 fun arm har => forall_mem_cons.2 ⟨hr _, ?_⟩
      exact forall_mem_flatMap.2 fun s hs => (((h.2 arm har).2 s hs).free hG).1
    | _ => exact forall_mem_nil _
  · obtain ⟨array, ha, index, hp⟩ := h.writes hG.plain hG.strict (i.map_updates ▸ mem_map_of_mem hu)
    exact hp ▸ hG.inMatrix (.inl ha) index

end Free

end Kinetics.Code

namespace Kinetics.Jacobian

open Code Emit Rate

/-! ## Following which entries are assigned -/

variable {p : Place}

section Tracks
variable {W W' W'' : Place → Prop} {items more : List (Item Exact)} {steps : List (Step Exact)}

/-- Code that reads no entry of the matrix. Entries in `W` are assigned before it and those in `W'` after it, and
each entry that joins is assigned before anything is added to it. -/
structure Tracks (W W' : Place → Prop) (items : List (Item Exact)) : Prop where
  plain : ∀ i ∈ items, i.Plain
  unread : ∀ i ∈ items, ∀ p ∈ i.reads, p.inMatrix = false
  grows : ∀ p, W p → W' p
  assigned : ∀ p, p.inMatrix = true → ¬W p → W' p → firstUpdate p items = some .set
  untouched : ∀ p, p.inMatrix = true → ¬W' p → firstUpdate p items = none

lemma plain_of_free {i : Item Exact} (h : i.Free) : i.Plain := fun u hu hm => absurd hm (by rw [h.2 u hu]; decide)

lemma firstUpdate_free (h : ∀ i ∈ items, i.Free) (hp : p.inMatrix = true) : firstUpdate p items = none := by
  rw [firstUpdate_eq_none, updates, forall_mem_flatMap]
  rintro i hi u hu rfl
  rw [(h i hi).2 u hu] at hp
  cases hp

lemma tracks_free (h : ∀ i ∈ items, i.Free) : Tracks W W items where
  plain i hi := plain_of_free (h i hi)
  unread i hi := (h i hi).1
  grows _ hp := hp
  assigned _ _ hp hp' := absurd hp' hp
  untouched _ hp _ := firstUpdate_free h hp

lemma tracks_free_steps (h : ∀ s ∈ steps, s.Free) : Tracks W W (steps.map .step) := tracks_free (forall_mem_map.2 h)

lemma Tracks.append (h : Tracks W W' items) (h' : Tracks W' W'' more) : Tracks W W'' (items ++ more) where
  plain := forall_mem_append.2 ⟨h.plain, h'.plain⟩
  unread := forall_mem_append.2 ⟨h.unread, h'.unread⟩
  grows p hp := h'.grows p (h.grows p hp)
  assigned p hp hW hW'' := by
    rw [firstUpdate_append]
    by_cases hW' : W' p
    · rw [h.assigned p hp hW hW', Option.some_or]
    · rw [h.untouched p hp hW', Option.none_or, h'.assigned p hp hW' hW'']
  untouched p hp hW'' := by
    rw [firstUpdate_append, h.untouched p hp fun hW' => hW'' (h'.grows p hW'), Option.none_or, h'.untouched p hp hW'']

lemma apart_of_inMatrix (hp : p.inMatrix = true) : Apart p := by
  rintro a ha i rfl
  rw [workGrammar_spares.inMatrix (.inl ha)] at hp
  cases hp

/-- Changes without order: none adds to an entry that was not assigned before them. -/
lemma tracks_makes {ρ : Memory} {cs : List Change} (h : MakeAll ρ items cs)
    (hfr : ∀ c ∈ cs, c.place.inMatrix = true → c.form = .set ∨ c.form = .add ∧ W c.place)
    (hc : ∀ p, p.inMatrix = true → (W' p ↔ W p ∨ ∃ c ∈ cs, c.place = p)) (hg : ∀ p, W p → W' p) :
    Tracks W W' items where
  plain i hi u hu hm := by
    obtain ⟨c, hc, rfl⟩ := h.mem_updates hi hu
    obtain ⟨s, rfl⟩ | hn := (h.plain i hi).1
    · exact ⟨⟨s, rfl⟩, (hfr c hc hm).imp_right fun h => .inl h.1⟩
    · rw [hn] at hu
      cases hu
  unread i hi p hp := Bool.eq_false_iff.2 fun hm => (h.plain i hi).2 p hp (apart_of_inMatrix hm)
  grows := hg
  assigned p hp hW hW' := by
    obtain ⟨c, hcs, rfl⟩ := ((hc p hp).1 hW').resolve_left hW
    refine firstUpdate_eq_some ⟨c.form, h.updates_eq ▸ mem_map_of_mem hcs⟩ fun f hf => ?_
    rw [h.updates_eq] at hf
    obtain ⟨d, hd, heq⟩ := mem_map.1 hf
    obtain ⟨hpl, rfl⟩ := Prod.mk.inj heq
    exact (hfr d hd (hpl ▸ hp)).resolve_right fun h => hW (hpl ▸ h.2)
  untouched p hp hW' := by
    rw [firstUpdate_eq_none, h.updates_eq, forall_mem_map]
    rintro c hcs rfl
    exact hW' ((hc _ hp).2 (.inr ⟨c, hcs, rfl⟩))

end Tracks

/-! ## The reaction loop -/

section Loop
variable {e : LoopSetting Exact} {s s' : LoopState Exact} {progress : Progress} {i : ℕ} {r : Reaction ℕ Exact}
  {items : List (Item Exact)} {steps : List (Step Exact)} {n : ℕ}

/-- The entries that the reaction loop has assigned by the time of some progress. -/
def Progress.Covers (n : ℕ) (progress : Progress) (p : Place) : Prop :=
  (∃ k ∈ progress.temperature, k + 1 < n ∧ p = temperaturePlace n k) ∨
    ∃ k ∈ progress.composition, k < n ∧ ∃ j, j + 1 < n ∧ p = compositionPlace n k j

lemma temperaturePart_tracks (hsn : e.unrolled = false) {excess next : Option (Excess Exact)}
    {written : List ℕ} (h : temperaturePart e progress excess i r = .ok (items, written, next)) :
    Tracks (progress.Covers e.species.length) (Progress.Covers e.species.length ⟨written, progress.composition⟩)
      items := by
  obtain ⟨slope, writes, fill, ht, rfl, hm, hb, hw⟩ := temperaturePart_eq hsn h
  have hs : ∀ i ∈ slope, i.Free := fun i hi =>
    (temperatureItems_fits _ _ _ _ ht i hi).free workGrammar_spares
  have hg : ∀ p, progress.Covers e.species.length p →
      Progress.Covers e.species.length ⟨written, progress.composition⟩ p := by
    rintro p (⟨k, hk, hlt, rfl⟩ | hcm)
    · exact .inl ⟨k, (hw k).2 (.inl hk), hlt, rfl⟩
    · exact .inr hcm
  refine (tracks_free hs).append (tracks_makes (hm fun _ => 0) ?_ (fun p hp => ⟨?_, ?_⟩) hg)
  · intro c hc _
    obtain ⟨-, d, -, rfl⟩ := mem_temperatureChanges.1 hc
    unfold temperatureChange
    split
    · next ho =>
      simp only [Bool.and_eq_true, decide_eq_true_eq, contains_iff_mem] at ho
      exact .inr ⟨rfl, .inl ⟨d.1, ho.2, ho.1, rfl⟩⟩
    · exact .inl rfl
  · rintro (⟨k, hk, hlt, rfl⟩ | hcm)
    · obtain hk | ⟨hwr, hz⟩ := (hw k).1 hk
      · exact .inl (.inl ⟨k, hk, hlt, rfl⟩)
      · exact .inr ⟨_, mem_temperatureChanges.2 ⟨hwr, _, mem_changesOf hz, rfl⟩, rfl⟩
    · exact .inl (.inr hcm)
  · rintro (hcv | ⟨c, hc, rfl⟩)
    · exact hg p hcv
    · obtain ⟨hwr, d, hd, rfl⟩ := mem_temperatureChanges.1 hc
      obtain ⟨hm, hz, -⟩ := of_mem_changesOf hd
      refine .inl ⟨d.1, (hw d.1).2 (.inr ⟨hwr, hz⟩), ?_, rfl⟩
      -- the last species has its entry in a variable
      have hne : d.1 + 1 ≠ e.species.length := by
        intro hl
        rw [temperatureChange, temperaturePlace, if_pos hl] at hp
        cases hp
      have := hb hwr d.1 hm
      omega

lemma compositionItems_tracks (hn : 1 < e.species.length) {ranks : Ranks} {composition : List ℕ}
    (h : compositionItems e.species progress ranks r = .ok items)
    (ha : compositionAfter e progress r = .ok composition) (temperature : List ℕ) :
    Tracks (Progress.Covers e.species.length ⟨temperature, progress.composition⟩)
      (Progress.Covers e.species.length ⟨temperature, composition⟩) items := by
  obtain ⟨start, fill, hs, rfl, hm, hb⟩ := compositionItems_eq h
  have hb := hb hn
  obtain rfl := compositionAfter_eq hn ha
  have hfr : ∀ i ∈ Item.step (speciesRemark ranks.all) :: start, i.Free :=
    forall_mem_cons.2 ⟨⟨forall_mem_nil _, forall_mem_nil _⟩,
      fun i hi => (compositionStart_fits _ _ _ _ hs i hi).free workGrammar_spares⟩
  have hg : ∀ p, Progress.Covers e.species.length ⟨temperature, progress.composition⟩ p →
      Progress.Covers e.species.length ⟨temperature, meet progress.composition (changesOf e.species r)⟩ p := by
    rintro p (ht | ⟨k, hk, hlt, j, hj, rfl⟩)
    · exact .inl ht
    · exact .inr ⟨k, mem_meet.2 (.inl hk), hlt, j, hj, rfl⟩
  refine (tracks_free hfr).append (tracks_makes (hm fun _ => 0) ?_ (fun p _ => ⟨?_, ?_⟩) hg)
  · intro c hc _
    obtain ⟨j, hj, d, hd, rfl⟩ := mem_compositionChanges.1 hc
    unfold compositionChange
    split
    · next ho =>
      rw [contains_iff_mem] at ho
      exact .inr ⟨rfl, .inr ⟨d.1, ho, hb d.1 (of_mem_changesOf hd).1, j, hj, rfl⟩⟩
    · exact .inl rfl
  · rintro (ht | ⟨k, hk, hlt, j, hj, rfl⟩)
    · exact .inl (.inl ht)
    · obtain hk | hz := mem_meet.1 hk
      · exact .inl (.inr ⟨k, hk, hlt, j, hj, rfl⟩)
      · exact .inr ⟨_, mem_compositionChanges.2 ⟨j, hj, _, mem_changesOf hz, rfl⟩, rfl⟩
  · rintro (hcv | ⟨c, hc, rfl⟩)
    · exact hg p hcv
    · obtain ⟨j, hj, d, hd, rfl⟩ := mem_compositionChanges.1 hc
      obtain ⟨hm, hz, -⟩ := of_mem_changesOf hd
      exact .inr ⟨d.1, mem_meet.2 (.inr hz), hb d.1 hm, j, hj, rfl⟩

lemma reactionStep_tracks (hs : e.unrolled = false) (hbn : s.bank = none) (hn : 1 < e.species.length)
    (h : reactionStep e s i r = .ok (s', items)) :
    Tracks (s.progress.Covers e.species.length) (s'.progress.Covers e.species.length) items ∧ s'.bank = none := by
  obtain ⟨first, written, rows, hf, hr, ha, rfl, hb', rfl⟩ := reactionStep_eq hbn h
  have hb : ∀ locations, (Item.release locations : Item Exact).Free ∧ (Item.load [] : Item Exact).Free :=
    fun _ => ⟨⟨forall_mem_nil _, forall_mem_nil _⟩, forall_mem_nil _, forall_mem_nil _⟩
  have hp := (temperaturePart_tracks hs hf).append (compositionItems_tracks hn hr ha s'.progress.temperature)
  have hl : Tracks (s.progress.Covers e.species.length) (s.progress.Covers e.species.length) [Item.load []] :=
    tracks_free (forall_mem_singleton.2 (hb []).2)
  exact ⟨hl.append (hp.append (tracks_free (forall_mem_singleton.2 (hb []).1))), hb'⟩

variable {rest : List (Reaction ℕ Exact × ℕ)}

/-- The species that get entries in the species columns are those that some reaction changes. -/
lemma reactionRun_tracks (hs : e.unrolled = false) (hb : s.bank = none) (hn : 1 < e.species.length)
    (h : reactionRun e s rest = .ok (s', items)) :
    Tracks (s.progress.Covers e.species.length) (s'.progress.Covers e.species.length) items ∧
      ∀ k, k ∈ s'.progress.composition ↔
        k ∈ s.progress.composition ∨ ∃ x ∈ rest, Arithmetic.isZero (x.1.change k) = false := by
  induction rest generalizing s items with
  | nil =>
    cases h
    exact ⟨tracks_free (forall_mem_nil _), by simp⟩
  | cons x rest ih =>
    obtain ⟨⟨s₁, first⟩, hf, h⟩ := bind_eq_ok.1 h
    obtain ⟨⟨s₂, more⟩, hm, h⟩ := bind_eq_ok.1 h
    cases h
    obtain ⟨-, -, -, -, -, ha, -⟩ := reactionStep_eq hb hf
    obtain ⟨ht, hb'⟩ := reactionStep_tracks hs hb hn hf
    obtain ⟨hts, hk⟩ := ih hb' hm
    refine ⟨ht.append hts, fun k => ?_⟩
    rw [hk, compositionAfter_eq hn ha, mem_meet, exists_mem_cons_iff, or_assoc]

end Loop

/-! ## The finishing statements -/

section Finish
variable {species : List (Species Exact)} {produced : List Bool} {progress : Progress} {n k j j' : ℕ}

/-- The entry of the temperature row in the column of species `j`. -/
def energyPlace (n j : ℕ) : Place := .cell "jac" (some (n * (j + 1) : ℕ))

lemma energyPlace_ne_temperaturePlace (k j : ℕ) (hk : k + 1 < n) : energyPlace n j ≠ temperaturePlace n k := by
  intro h
  rw [temperaturePlace, if_neg (by omega), energyPlace] at h
  simp only [Place.cell.injEq, Option.some.injEq] at h
  have hle : n * 1 ≤ n * (j + 1) := Nat.mul_le_mul_left n (Nat.le_add_left 1 j)
  omega

lemma energyPlace_ne_compositionPlace (k j j' : ℕ) : energyPlace n j ≠ compositionPlace n k j' := by
  intro h
  unfold energyPlace compositionPlace at h
  split at h
  · next hk =>
    simp only [Place.cell.injEq, Option.some.injEq, Nat.cast_inj, true_and] at h
    have hr := congrArg (· % n) h
    simp only [Nat.mul_mod_right, Nat.add_mul_mod_self_left, Nat.mod_eq_of_lt hk] at hr
    omega
  · simp at h

def Kept (produced : List Bool) (progress : Progress) (k : ℕ) : Prop :=
  k ∈ progress.composition ∨ produced[k]? = some true

/-- The update completes an entry of species `k` in the column of species `j`, or it adds the share of species
`k` to the temperature row there. -/
def Finishes (n : ℕ) (produced : List Bool) (progress : Progress) (k j : ℕ) (u : Place × Form) : Prop :=
  k ∈ progress.composition ∧ u = (compositionPlace n k j, .add) ∨
    Kept produced progress k ∧ u = (energyPlace n j, if k = 0 then .set else .subtract)

lemma reads_compositionEntry (n k j : ℕ) : (compositionEntry n k j).reads = [compositionPlace n k j] := by
  unfold compositionEntry compositionPlace
  split <;> rfl

variable {weight : Exact}

/-- The share of a species in the temperature row reads its entry, if there is one. -/
lemma energyShare_reads {written : Bool}
    (hp : p ∈ (energyShare n k j weight written).reads) (hm : p.inMatrix = true) :
    written = true ∧ p = compositionPlace n k j := by
  have hf : (Expr.group (.var "j_temp" * .group (.cell "cp" j - .cell "cp" (n - 1 : ℕ))
      * .cell "spec_rates" k * .sci 8 weight) : Expr Exact).Fits (calmGrammar False) := by simp
  have hc := hf.free (calmGrammar_spares _)
  have hs : ∀ {a : Expr Exact}, a.Free → p ∉ a.reads := fun ha hmm => by
    rw [ha p hmm] at hm
    cases hm
  cases written with
  | false =>
    refine absurd hp (hs (Expr.Fits.free (calmGrammar_spares False) ?_))
    simp [energyShare]
  | true =>
    refine ⟨rfl, ?_⟩
    have hpr : (energyShare n k j weight true).reads = (Expr.cell "h" k : Expr Exact).reads ++
        (((Expr.var "working_temp" : Expr Exact).reads ++ (compositionEntry n k j).reads) ++ (Expr.group
          (.var "j_temp" * .group (.cell "cp" j - .cell "cp" (n - 1 : ℕ)) * .cell "spec_rates" k * .sci 8 weight)
            : Expr Exact).reads) := by
      simp only [Expr.reads, ← map_append]
      rfl
    rw [hpr, reads_compositionEntry] at hp
    have he : p ∉ (Expr.cell "h" k : Expr Exact).reads := hs (forall_mem_singleton.2 rfl)
    have hsc : p ∉ (Expr.var "working_temp" : Expr Exact).reads := hs (forall_mem_singleton.2 rfl)
    simpa [he, hsc, hs hc] using hp

/-- The statement that adds a share to the temperature row. -/
def energyStep (n k j : ℕ) (share : Expr Exact) : Step Exact :=
  if k = 0 then .assign 2 (.cell "jac" (n * (j + 1) : ℕ)) .set (-share)
  else .assign 2 (.cell "jac" (n * (j + 1) : ℕ)) .subtract share

lemma updates_energyStep (n k j : ℕ) (share : Expr Exact) :
    (energyStep n k j share).updates = [(energyPlace n j, if k = 0 then .set else .subtract)] := by
  unfold energyStep
  split <;> rfl

lemma reads_energyStep (n k j : ℕ) (share : Expr Exact) : (energyStep n k j share).reads = share.reads := by
  unfold energyStep
  split <;> rfl

variable {steps : List (Step Exact)}

/-- What steps update, and what entries of the matrix they read at most. -/
structure Uses (U : Place × Form → Prop) (R : Place → Prop) (steps : List (Step Exact)) : Prop where
  updates : ∀ u, u ∈ steps.flatMap Step.updates ↔ U u
  reads : ∀ p ∈ steps.flatMap Step.reads, p.inMatrix = true → R p

lemma entryFinish_updates {weight other : Exact}
    (h : entryFinish species produced (progress.composition.contains k) k j weight other = .ok steps) :
    Uses (Finishes species.length produced progress k j)
      (fun p => k ∈ progress.composition ∧ p = compositionPlace species.length k j) steps := by
  unfold entryFinish at h
  cases hw : progress.composition.contains k with
  | true =>
    rw [hw] at h
    rw [contains_iff_mem] at hw
    obtain ⟨last, -, h⟩ := bind_eq_ok.1 h
    obtain ⟨term, ht, h⟩ := bind_eq_ok.1 h
    have hf : term.Free := by
      obtain ⟨x, -, ht⟩ := bind_eq_ok.1 ht
      obtain ⟨y, -, ht⟩ := bind_eq_ok.1 ht
      cases ht
      exact Expr.Fits.free (calmGrammar_spares False) (by simp)
    have hc : (Step.assign 2 (compositionEntry species.length k j) .add term).updates =
        [(compositionPlace species.length k j, .add)] := by
      rw [Step.updates, location_compositionEntry]
      rfl
    have hs : steps = [.assign 2 (compositionEntry species.length k j) .add term,
        energyStep species.length k j (energyShare species.length k j weight true)] := (Except.ok.inj h).symm
    constructor
    · intro u
      rw [hs, flatMap_cons, flatMap_singleton, hc, updates_energyStep]
      simp [Finishes, Kept, hw]
    · intro p hp hm
      rw [hs, flatMap_cons, flatMap_singleton, reads_energyStep, mem_append] at hp
      obtain hp | hp := hp
      · rw [hf p hp] at hm
        cases hm
      · exact ⟨hw, (energyShare_reads hp hm).2⟩
  | false =>
    rw [hw] at h
    have hn : k ∉ progress.composition := by simpa using hw
    simp only [pure_ok, ok_bind] at h
    obtain ⟨kept, hk, h⟩ := bind_eq_ok.1 h
    rw [entryAt_eq_ok] at hk
    cases kept with
    | true =>
      have hs : steps = [energyStep species.length k j (energyShare species.length k j weight false)] :=
        (Except.ok.inj h).symm
      rw [hs]
      constructor
      · intro u
        rw [flatMap_singleton, updates_energyStep]
        simp [Finishes, Kept, hn, hk]
      · intro p hp hm
        rw [flatMap_singleton, reads_energyStep] at hp
        exact absurd (energyShare_reads hp hm).1 Bool.false_ne_true
    | false =>
      cases h
      constructor
      · intro u
        simp [Finishes, Kept, hn, hk]
      · exact forall_mem_nil _

lemma uses_flatten {β : Type} {U : β → Place × Form → Prop} {R : β → Place → Prop} {xs : List β}
    {parts : List (List (Step Exact))} (h : List.Forall₂ (fun x => Uses (U x) (R x)) xs parts) :
    Uses (fun u => ∃ x ∈ xs, U x u) (fun p => ∃ x ∈ xs, R x p) parts.flatten := by
  induction h with
  | nil => exact ⟨by simp, by simp⟩
  | cons hx _ ih =>
    refine ⟨fun u => ?_, fun p hp hm => ?_⟩
    · rw [flatten_cons, flatMap_append, mem_append, hx.updates, ih.updates, exists_mem_cons_iff]
    · rw [flatten_cons, flatMap_append, mem_append] at hp
      rw [exists_mem_cons_iff]
      exact hp.imp (hx.reads p · hm) (ih.reads p · hm)

lemma exists_column (Q : ℕ → Prop) : (∃ x ∈ species.dropLast.zipIdx, Q x.2) ↔ ∃ j, j + 1 < species.length ∧ Q j := by
  constructor
  · rintro ⟨x, hx, hQ⟩
    have hlt := snd_lt_of_mem_zipIdx hx
    rw [length_dropLast] at hlt
    exact ⟨x.2, by omega, hQ⟩
  · rintro ⟨j, hj, hQ⟩
    have hlt : j < species.dropLast.length := by
      rw [length_dropLast]
      omega
    exact ⟨(species.dropLast[j], j), mem_zipIdx_iff_getElem?.2 (List.getElem?_eq_getElem hlt), hQ⟩

lemma speciesFinish_updates (h : speciesFinish species produced progress k weight = .ok steps) :
    Uses (fun u => ∃ j, j + 1 < species.length ∧ Finishes species.length produced progress k j u)
      (fun p => ∃ j, j + 1 < species.length ∧ k ∈ progress.composition ∧ p = compositionPlace species.length k j)
      steps := by
  obtain ⟨rows, hr, h⟩ := bind_eq_ok.1 h
  cases h
  have hu := uses_flatten ((mapM_eq_ok.1 hr).imp fun x row hrw => entryFinish_updates hrw)
  exact ⟨fun u => (hu.updates u).trans (exists_column (Finishes species.length produced progress k · u)),
    fun p hp hm => (exists_column fun j => k ∈ progress.composition ∧ p = compositionPlace species.length k j).1
      (hu.reads p hp hm)⟩

/-- All updates of the finishing statements of some species, and what they read. -/
lemma finishRun_updates {members : List (Species Exact × ℕ)}
    (h : finishRun species produced progress members = .ok steps) :
    Uses (fun u => ∃ x ∈ members, ∃ j, j + 1 < species.length ∧ Finishes species.length produced progress x.2 j u)
      (fun p => ∃ x ∈ members, ∃ j, j + 1 < species.length ∧ x.2 ∈ progress.composition ∧
        p = compositionPlace species.length x.2 j) steps := by
  obtain ⟨blocks, hbl, h⟩ := bind_eq_ok.1 h
  cases h
  exact uses_flatten ((mapM_eq_ok.1 hbl).imp fun x block hb => speciesFinish_updates hb)

/-- Of the updates that finish something, those of the temperature row assign or subtract. -/
lemma Finishes.energy {f : Form} (h : Finishes n produced progress k j (energyPlace n j', f)) :
    Kept produced progress k ∧ f = if k = 0 then .set else .subtract := by
  obtain ⟨-, heq⟩ | ⟨hk, heq⟩ := h
  · exact absurd (congrArg Prod.fst heq) (energyPlace_ne_compositionPlace _ _ _)
  · exact ⟨hk, congrArg Prod.snd heq⟩

lemma finishRun_first
    (h : finishRun species produced progress species.zipIdx = .ok steps) (hj : j + 1 < species.length) :
    (Kept produced progress 0 → firstUpdate (energyPlace species.length j) (steps.map .step) = some .set) ∧
      (¬Kept produced progress 0 → (∃ k < species.length, Kept produced progress k) →
        firstUpdate (energyPlace species.length j) (steps.map .step) = some .subtract) ∧
      ((∀ k < species.length, ¬Kept produced progress k) →
        firstUpdate (energyPlace species.length j) (steps.map .step) = none) := by
  have hm := (finishRun_updates h).1
  rw [← updates_steps] at hm
  have hkt : ∀ f, (energyPlace species.length j, f) ∈ updates (steps.map .step) →
      ∃ k < species.length, Kept produced progress k ∧ f = if k = 0 then .set else .subtract := by
    intro f hf
    obtain ⟨x, hx, j', -, hfn⟩ := (hm _).1 hf
    exact ⟨x.2, by simpa using snd_lt_of_mem_zipIdx hx, hfn.energy⟩
  refine ⟨fun hz => ?_, fun hz hs => ?_, fun hn => ?_⟩
  · -- the block of the first species comes first
    obtain ⟨sp, rest, rfl⟩ := exists_cons_of_length_pos (Nat.zero_lt_of_lt hj)
    obtain ⟨blocks, hb, hst⟩ := bind_eq_ok.1 h
    cases hst
    rw [mapM_eq_ok] at hb
    cases hb with
    | @cons _ block _ blocks hfs hr =>
      have hm := (speciesFinish_updates hfs).1
      rw [← updates_steps] at hm
      rw [flatten_cons, map_append, firstUpdate_append]
      have hse : firstUpdate (energyPlace (sp :: rest).length j) (block.map .step) = some .set := by
        refine firstUpdate_eq_some ⟨.set, (hm _).2 ⟨j, hj, .inr ⟨hz, rfl⟩⟩⟩ fun f hf => ?_
        obtain ⟨j', -, hfn⟩ := (hm _).1 hf
        exact hfn.energy.2
      rw [hse, Option.some_or]
  · obtain ⟨k, hk, hkp⟩ := hs
    have hne : ∀ k, Kept produced progress k → k ≠ 0 := by
      rintro k hkp rfl
      exact hz hkp
    refine firstUpdate_eq_some ⟨.subtract, (hm _).2 ⟨(species[k], k), ?_, j, hj, .inr ⟨hkp, ?_⟩⟩⟩ fun f hf => ?_
    · exact mem_zipIdx_iff_getElem?.2 (List.getElem?_eq_getElem hk)
    · rw [if_neg (hne k hkp)]
    · obtain ⟨k', -, hk', rfl⟩ := hkt f hf
      rw [if_neg (hne k' hk')]
  · rw [firstUpdate_eq_none]
    rintro ⟨q, f⟩ hu rfl
    obtain ⟨k, hk, hkp, -⟩ := hkt f hu
    exact hn k hk hkp

end Finish

end Kinetics.Jacobian
