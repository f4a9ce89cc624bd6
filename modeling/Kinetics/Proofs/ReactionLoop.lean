import Kinetics.Proofs.MatrixEntries
import Kinetics.Proofs.RatesOfProgress
/-!
# The reaction loop fills the matrix

What a reaction adds to the matrix, its `Share`, is computed by statements over
work variables alone: the value of `j_temp` for the temperature column, and the
derivatives by the mass fractions for the species columns. `loopShares` computes
the shares of all reactions without the matrix. The emitted loop computes the same
shares, and each entry of a species column is the sum of what the reactions add.
-/

open List

namespace Kinetics.Jacobian

open Code Rate

noncomputable section

/-! ## What a reaction adds -/

/-- What one reaction has for the matrix. -/
structure Share where
  reaction : Reaction ℕ Exact
  /-- `j_temp`, if the reaction writes the temperature column. -/
  slope : Option ℝ
  /-- The derivative of the rate by the mass fraction of each species. -/
  derivative : ℕ → ℝ

/-- What a reaction adds to the entry of species `k` in the temperature column. -/
def temperatureTerm (species : List (Species Exact)) (r : Reaction ℕ Exact) (slope : Option ℝ) (k : ℕ) : Option ℝ :=
  if Arithmetic.isZero (r.change k) then none
  else slope.map fun x => (r.change k).toReal * x * (memberAt species k).weight.toReal

/-- What a reaction adds to the entry of species `k` in the column of species `j`. -/
def compositionTerm (species : List (Species Exact)) (r : Reaction ℕ Exact) (derivative : ℕ → ℝ) (k j : ℕ) : Option ℝ :=
  if Arithmetic.isZero (r.change k) then none
  else some ((memberAt species k).weight.toReal / (memberAt species j).weight.toReal
    * (r.change k).toReal * derivative j)

/-- The value of the derivative of a reaction by the mass fraction of species `j`. -/
def derivativeAt (species : List (Species Exact)) (ranks : Ranks) (r : Reaction ℕ Exact) (ρ : Memory)
    (j : ℕ) : Option ℝ :=
  (speciesDerivative species ranks r j (memberAt species j).weight).toOption.bind (·.value ρ)

def inert (r : Reaction ℕ Exact) : Bool := (participants r).all fun s => Arithmetic.isZero (r.change s)

/-- All derivatives that an entry needs have a value. -/
def ready (species : List (Species Exact)) (ranks : Ranks) (r : Reaction ℕ Exact) (ρ : Memory) : Bool :=
  inert r || (List.range (species.length - 1)).all fun j => (derivativeAt species ranks r ρ j).isSome

/-- The share of a reaction, with what the next reaction can build on. There is none if a statement
has no value, or a derivative that some entry needs. -/
def shareOf (e : LoopSetting Exact) (excess : Option (Excess Exact)) (i : ℕ) (r : Reaction ℕ Exact)
    (ρ : Memory) : Option (Share × Option (Excess Exact) × Memory) := do
  let ranks := ranksAt e.reactions i
  let (slope, writes, excess) ← (temperatureItems excess ranks r).toOption
  let start ← (compositionStart e.species ranks r).toOption
  let ρ₁ ← runItems ρ slope
  let ρ₂ ← (runItems ρ₁ start).filter (ready e.species ranks r)
  return (⟨r, if writes then some (ρ₁.var "j_temp") else none,
    fun j => (derivativeAt e.species ranks r ρ₂ j).getD 0⟩, excess, ρ₂)

lemma shareOf_ok {e : LoopSetting Exact} {excess next : Option (Excess Exact)} {i : ℕ}
    {r : Reaction ℕ Exact} {ρ : Memory} {slope start : List (Item Exact)} {writes : Bool}
    (ht : temperatureItems excess (ranksAt e.reactions i) r = .ok (slope, writes, next))
    (hs : compositionStart e.species (ranksAt e.reactions i) r = .ok start) :
    shareOf e excess i r ρ = (runItems ρ slope).bind fun ρ₁ =>
      ((runItems ρ₁ start).filter (ready e.species (ranksAt e.reactions i) r)).bind fun ρ₂ =>
        some (⟨r, if writes then some (ρ₁.var "j_temp") else none,
          fun j => (derivativeAt e.species (ranksAt e.reactions i) r ρ₂ j).getD 0⟩, next, ρ₂) := by
  rw [shareOf, ht, hs]
  rfl

/-- The shares of consecutive reactions, computed over work variables alone. -/
def loopShares (e : LoopSetting Exact) (excess : Option (Excess Exact)) (ρ : Memory) :
    List (Reaction ℕ Exact × ℕ) → Option (List Share)
  | [] => some []
  | (r, i) :: rest => do
    let (share, excess, ρ) ← shareOf e excess i r ρ
    let more ← loopShares e excess ρ rest
    return share :: more

/-! ## The changed species -/

variable {k : ℕ}

section Changes
variable {species : List (Species Exact)} {r : Reaction ℕ Exact}

/-- A species with its weight and net coefficient, if the reaction changes it. -/
def changeOf (species : List (Species Exact)) (r : Reaction ℕ Exact) (s : ℕ) : Option (ℕ × Exact × Exact) :=
  if Arithmetic.isZero (r.change s) then none else some (s, (memberAt species s).weight, r.change s)

def changesOf (species : List (Species Exact)) (r : Reaction ℕ Exact) : List (ℕ × Exact × Exact) :=
  (participants r).filterMap (changeOf species r)

variable {c : ℕ × Exact × Exact}

lemma changeOf_eq_some {s : ℕ} (h : changeOf species r s = some c) :
    Arithmetic.isZero (r.change s) = false ∧ c = (s, (memberAt species s).weight, r.change s) := by
  unfold changeOf at h
  split at h
  · cases h
  · next hz => exact ⟨by simpa using hz, (Option.some.inj h).symm⟩

lemma changed_eq {changes : List (ℕ × Exact × Exact)} (h : changed species r = .ok changes) :
    changes = changesOf species r ∧ ∀ s ∈ participants r, s < species.length := by
  have hst : ∀ s y, (do
      let weight := (← entryAt species s).weight
      let nu ← r.net s
      return if Arithmetic.isZero nu then none else some (s, weight, nu)) = .ok y →
      y = changeOf species r s ∧ s < species.length := by
    intro s y hy
    obtain ⟨sp, hsp, hy⟩ := bind_eq_ok.1 hy
    obtain ⟨nu, hnu, hy⟩ := bind_eq_ok.1 hy
    rw [entryAt_eq_ok] at hsp
    have hc : r.change s = nu := by rw [Reaction.change, hnu]; rfl
    have hm : memberAt species s = sp := by rw [memberAt, hsp]; rfl
    rw [changeOf, hc, hm]
    exact ⟨(pure_eq_ok.1 hy).symm, (List.getElem?_eq_some_iff.1 hsp).1⟩
  obtain ⟨hch, ha⟩ := filterMapM_eq_ok (fun s y hy => (hst s y hy).1) h
  exact ⟨hch, fun s hs => (hst s _ (ha s hs)).2⟩

lemma of_mem_changesOf (hc : c ∈ changesOf species r) :
    c.1 ∈ participants r ∧ Arithmetic.isZero (r.change c.1) = false ∧
      c = (c.1, (memberAt species c.1).weight, r.change c.1) := by
  obtain ⟨s, hs, hc⟩ := mem_filterMap.1 hc
  obtain ⟨hz, rfl⟩ := changeOf_eq_some hc
  exact ⟨hs, hz, rfl⟩

lemma mem_changesOf (hz : Arithmetic.isZero (r.change k) = false) :
    (k, (memberAt species k).weight, r.change k) ∈ changesOf species r := by
  have hm : k ∈ participants r := by
    by_contra hk
    rw [Reaction.change_of_not_mem hk] at hz
    simp at hz
  exact mem_filterMap.2 ⟨k, hm, by rw [changeOf, hz]; rfl⟩

lemma nodup_changesOf : ((changesOf species r).map (·.1)).Nodup := by
  rw [changesOf, map_filterMap]
  refine (nodup_participants r).filterMap fun s t b hs ht => ?_
  obtain ⟨c, hc, rfl⟩ := Option.map_eq_some_iff.1 hs
  obtain ⟨d, hd, he⟩ := Option.map_eq_some_iff.1 ht
  rw [(changeOf_eq_some hc).2, (changeOf_eq_some hd).2] at he
  exact he.symm

lemma mem_meet {old : List ℕ} :
    k ∈ meet old (changesOf species r) ↔ k ∈ old ∨ Arithmetic.isZero (r.change k) = false := by
  simp only [meet, mem_append, mem_filter, mem_map]
  constructor
  · rintro (hk | ⟨⟨c, hc, rfl⟩, -⟩)
    · exact .inl hk
    · exact .inr (of_mem_changesOf hc).2.1
  · by_cases hk : k ∈ old
    · exact fun _ => .inl hk
    · rintro (h | hz)
      · exact .inl h
      · exact .inr ⟨⟨_, mem_changesOf hz, rfl⟩, by simpa using hk⟩

lemma inert_iff (sp : List (Species Exact)) : inert r = true ↔ changesOf sp r = [] := by
  rw [changesOf, filterMap_eq_nil_iff, inert, all_eq_true]
  refine forall₂_congr fun s _ => ?_
  unfold changeOf
  split <;> simp [*]

end Changes

/-! ## The temperature column -/

/-- The content of an entry after a reaction that may have a term for it. -/
def settle (form : Form) (old : ℝ) : Option ℝ → ℝ
  | none => old
  | some v => form.update old v

variable {υ : Memory}

section Temperature
variable {e : LoopSetting Exact} {progress : Progress} {excess next : Option (Excess Exact)} {i : ℕ}
  {r : Reaction ℕ Exact} {items : List (Item Exact)} {written : List ℕ} {σ τ ρ : Memory}

/-- What the statements of a reaction do to the temperature column. -/
structure TemperatureAdded (species : List (Species Exact)) (progress : Progress) (r : Reaction ℕ Exact)
    (slope : Option ℝ) (σ τ : Memory) : Prop where
  entries : ∀ k < species.length, τ (temperaturePlace species.length k) =
    settle (if k + 1 < species.length && progress.temperature.contains k then .add else .set)
      (σ (temperaturePlace species.length k)) (temperatureTerm species r slope k)
  others : ∀ k j, τ (compositionPlace species.length k j) = σ (compositionPlace species.length k j)

lemma TemperatureAdded.of_frame {sp : List (Species Exact)} {slope : Option ℝ}
    (h : TemperatureAdded sp progress r slope τ υ) (hσ : ∀ p, Apart p → τ p = σ p) :
    TemperatureAdded sp progress r slope σ υ where
  entries k hk := by rw [h.entries k hk, hσ _ (temperaturePlace_apart _ k)]
  others k j := by rw [h.others k j, hσ _ (compositionPlace_apart _ k j)]

/-- The changes of the temperature column, if a reaction has a slope. -/
def temperatureChanges (species : List (Species Exact)) (progress : Progress) (r : Reaction ℕ Exact) (writes : Bool)
    (ρ : Memory) : List Change :=
  if writes then (changesOf species r).map (temperatureChange species.length progress (ρ.var "j_temp")) else []

lemma mem_temperatureChanges {sp : List (Species Exact)} {writes : Bool} {c : Change} :
    c ∈ temperatureChanges sp progress r writes ρ ↔ writes = true ∧
      ∃ d ∈ changesOf sp r, temperatureChange sp.length progress (ρ.var "j_temp") d = c := by
  cases writes <;> simp [temperatureChanges]

lemma temperatureChanges_added {sp : List (Species Exact)} {writes : Bool}
    (hb : writes = true → ∀ s ∈ participants r, s < sp.length)
    (hτ : Changed (temperatureChanges sp progress r writes ρ) σ τ) :
    TemperatureAdded sp progress r (if writes then some (ρ.var "j_temp") else none) σ τ where
  entries k hk := by
    by_cases h : writes = true ∧ Arithmetic.isZero (r.change k) = false
    · obtain ⟨rfl, hz⟩ := h
      rw [temperatureTerm, hz]
      exact hτ.entries _ (mem_temperatureChanges.2 ⟨rfl, _, mem_changesOf hz, rfl⟩) _ rfl
    · have hn : temperatureTerm sp r (if writes then some (ρ.var "j_temp") else none) k = none := by
        unfold temperatureTerm
        cases writes <;> simp_all
      rw [hn]
      refine hτ.others _ fun c hc hp => h ?_
      obtain ⟨hw, d, hd, rfl⟩ := mem_temperatureChanges.1 hc
      exact ⟨hw, temperaturePlace_injective hp ▸ (of_mem_changesOf hd).2.1⟩
  others k j := by
    refine hτ.others _ fun c hc => ?_
    obtain ⟨hw, d, hd, rfl⟩ := mem_temperatureChanges.1 hc
    exact temperaturePlace_ne (hb hw _ (of_mem_changesOf hd).1) k j

lemma temperaturePlaces_nodup (sp : List (Species Exact)) (writes : Bool) :
    ((temperatureChanges sp progress r writes ρ).map Change.place).Nodup := by
  cases writes with
  | false => exact nodup_nil
  | true =>
    rw [temperatureChanges, if_pos rfl, map_map, show Change.place ∘ temperatureChange sp.length progress
      (ρ.var "j_temp") = temperaturePlace sp.length ∘ (·.1) from rfl, ← map_map]
    exact nodup_changesOf.map fun _ _ hp => temperaturePlace_injective hp

/-- The statements of a reaction for the temperature column: work on `j_temp`, and then the changes of the column. -/
lemma temperaturePart_eq (hsn : e.unrolled = false)
    (h : temperaturePart e progress excess i r = .ok (items, written, next)) :
    ∃ slope writes fill, temperatureItems excess (ranksAt e.reactions i) r = .ok (slope, writes, next) ∧
      items = slope ++ fill ∧ (∀ ρ, MakeAll ρ fill (temperatureChanges e.species progress r writes ρ)) ∧
      (writes = true → ∀ s ∈ participants r, s < e.species.length) ∧
      ∀ k, k ∈ written ↔ k ∈ progress.temperature ∨ writes = true ∧ Arithmetic.isZero (r.change k) = false := by
  obtain ⟨⟨slope, writes, excess'⟩, ht, h⟩ := bind_eq_ok.1 h
  cases writes with
  | false =>
    cases pure_eq_ok.1 h
    exact ⟨items, false, [], ht, by simp, fun ρ => .nil, by simp, by simp⟩
  | true =>
    obtain ⟨changes, hcn, h⟩ := bind_eq_ok.1 h
    obtain ⟨steps, hs, h⟩ := bind_eq_ok.1 h
    obtain ⟨rfl, hb⟩ := changed_eq hcn
    cases pure_eq_ok.1 h
    rw [hsn] at hs
    refine ⟨slope, true, _, ht, rfl, fun ρ => ?_, fun _ => hb, fun k => by simp [mem_meet]⟩
    simpa [temperatureChanges] using (makeAll_steps (temperatureColumn_makes hs ρ)).append (.blank .nil)

/-- The statements of a reaction for the temperature column compute `j_temp` over work variables and
add it to the column. -/
lemma temperaturePart_run (hsn : e.unrolled = false)
    (h : temperaturePart e progress excess i r = .ok (items, written, next)) :
    ∃ slope writes, temperatureItems excess (ranksAt e.reactions i) r = .ok (slope, writes, next) ∧
      (∀ k, k ∈ written ↔ k ∈ progress.temperature ∨ writes = true ∧ Arithmetic.isZero (r.change k) = false) ∧
      ∀ σ ρ, Agree workNames σ ρ → Option.Rel (fun τ ρ' => Agree workNames τ ρ' ∧
        TemperatureAdded e.species progress r (if writes then some (ρ'.var "j_temp") else none) σ τ)
        (runItems σ items) (runItems ρ slope) := by
  obtain ⟨slope, writes, fill, ht, rfl, hm, hb, hw⟩ := temperaturePart_eq hsn h
  refine ⟨slope, writes, ht, hw, fun σ ρ hσ => ?_⟩
  rw [runItems_append, ← Option.bind_fun_some (runItems ρ slope)]
  refine rel_bind (runItems_work (temperatureItems_fits _ _ _ _ ht) hσ) fun τ ρ' hτ => ?_
  -- The column is filled from a memory in which `j_temp` is already computed.
  have ha : ∀ c ∈ temperatureChanges e.species progress r writes ρ', c.amount.isSome = true ∧ Apart c.place := by
    intro c hc
    obtain ⟨-, d, -, rfl⟩ := mem_temperatureChanges.1 hc
    exact ⟨rfl, temperaturePlace_apart _ d.1⟩
  obtain ⟨υ, hυ, hch⟩ := applyAll_some (σ := τ) (temperaturePlaces_nodup e.species writes) fun c hc => (ha c hc).1
  rw [(hm ρ').run hτ.1, hυ]
  exact .some ⟨(hch.agree fun c hc => (ha c hc).2).trans hτ.1, (temperatureChanges_added hb hch).of_frame hτ.2⟩

end Temperature

/-! ## The species columns -/

section Composition
variable {species : List (Species Exact)} {progress : Progress} {ranks : Ranks} {r : Reaction ℕ Exact}
  {items : List (Item Exact)} {σ τ ρ : Memory}

def columnChanges (species : List (Species Exact)) (progress : Progress) (ranks : Ranks)
    (r : Reaction ℕ Exact) (ρ : Memory) (j : ℕ) : List Change :=
  (changesOf species r).map (compositionChange species.length progress j
    (memberAt species j).weight.toReal (derivativeAt species ranks r ρ j))

def compositionChanges (species : List (Species Exact)) (progress : Progress) (ranks : Ranks)
    (r : Reaction ℕ Exact) (ρ : Memory) : List Change :=
  (List.range (species.length - 1)).flatMap (columnChanges species progress ranks r ρ)

lemma columnItems_makes {sp : Species Exact} {j : ℕ} (hsp : memberAt species j = sp)
    (h : columnItems species progress ranks r sp j = .ok items) :
    (∀ ρ, MakeAll ρ items (columnChanges species progress ranks r ρ j)) ∧ ∀ s ∈ participants r, s < species.length := by
  obtain ⟨derivative, hd, h⟩ := bind_eq_ok.1 h
  obtain ⟨changes, hc, h⟩ := bind_eq_ok.1 h
  obtain ⟨rfl, hb⟩ := changed_eq hc
  obtain ⟨steps, hs, h⟩ := bind_eq_ok.1 h
  cases pure_eq_ok.1 h
  refine ⟨fun ρ => .consult _ (makeAll_steps ?_), hb⟩
  have hm := compositionColumn_makes (speciesDerivative_fits _ _ _ _ _ _ hd) hs ρ
  subst hsp
  rw [columnChanges, derivativeAt, hd]
  exact hm

lemma columnList_makes {xs : List (Species Exact × ℕ)} {columns : List (List (Item Exact))}
    (hxs : ∀ x ∈ xs, memberAt species x.2 = x.1)
    (h : List.Forall₂ (fun x items => columnItems species progress ranks r x.1 x.2 = .ok items) xs columns) :
    (∀ ρ, MakeAll ρ columns.flatten ((xs.map (·.2)).flatMap (columnChanges species progress ranks r ρ))) ∧
      (xs ≠ [] → ∀ s ∈ participants r, s < species.length) := by
  induction h with
  | nil => exact ⟨fun _ => .nil, fun h => absurd rfl h⟩
  | @cons x items xs columns hx _ ih =>
    rw [forall_mem_cons] at hxs
    obtain ⟨hf, hb⟩ := columnItems_makes hxs.1 hx
    exact ⟨fun ρ => (hf ρ).append ((ih hxs.2).1 ρ), fun _ => hb⟩

/-- The statements of a reaction for the species columns: work on the derivatives, and then the changes of the
columns. -/
lemma compositionItems_eq (h : compositionItems species progress ranks r = .ok items) :
    ∃ start fill, compositionStart species ranks r = .ok start ∧
      items = .step (speciesRemark ranks.all) :: start ++ fill ∧
      (∀ ρ, MakeAll ρ fill (compositionChanges species progress ranks r ρ)) ∧
      (1 < species.length → ∀ s ∈ participants r, s < species.length) := by
  obtain ⟨start, hs, h⟩ := bind_eq_ok.1 h
  obtain ⟨columns, hc, h⟩ := bind_eq_ok.1 h
  cases pure_eq_ok.1 h
  have hmm : ∀ x ∈ species.dropLast.zipIdx, memberAt species x.2 = x.1 := by
    rintro ⟨sp, j⟩ hx
    have hj := mem_zipIdx_iff_getElem?.1 hx
    rw [List.getElem?_dropLast] at hj
    split at hj
    · rw [memberAt, hj]
      rfl
    · cases hj
  obtain ⟨hm, hb⟩ := columnList_makes hmm (mapM_eq_ok.1 hc)
  refine ⟨start, _, hs, append_assoc .., fun ρ => ?_, fun hn => hb fun hnl => ?_⟩
  · have hm := hm ρ
    rw [zipIdx_map_snd, length_dropLast, ← range_eq_range'] at hm
    simpa [compositionChanges] using hm.append (.blank .nil)
  · have hl := congrArg List.length hnl
    rw [length_zipIdx, length_dropLast, length_nil] at hl
    omega

lemma mem_compositionChanges {c : Change} :
    c ∈ compositionChanges species progress ranks r ρ ↔ ∃ j, j + 1 < species.length ∧
      ∃ d ∈ changesOf species r, c = compositionChange species.length progress j
        (memberAt species j).weight.toReal (derivativeAt species ranks r ρ j) d := by
  simp only [compositionChanges, columnChanges, mem_flatMap, mem_range, mem_map]
  constructor
  · rintro ⟨j, hj, d, hd, rfl⟩
    exact ⟨j, by omega, d, hd, rfl⟩
  · rintro ⟨j, hj, d, hd, rfl⟩
    exact ⟨j, by omega, d, hd, rfl⟩

lemma compositionPlaces_nodup (hb : ∀ s ∈ participants r, s < species.length) :
    ((compositionChanges species progress ranks r ρ).map Change.place).Nodup := by
  have hpl : ∀ {c d : ℕ × Exact × Exact} {j j' : ℕ}, c ∈ changesOf species r → d ∈ changesOf species r →
      compositionPlace species.length c.1 j = compositionPlace species.length d.1 j' → c.1 = d.1 ∧ j = j' :=
    fun hc hd => compositionPlace_injective (hb _ (of_mem_changesOf hc).1) (hb _ (of_mem_changesOf hd).1)
  rw [compositionChanges, map_flatMap, nodup_flatMap]
  refine ⟨fun j _ => ?_, nodup_range.imp fun {j j'} hne => ?_⟩
  · rw [columnChanges, map_map]
    refine List.Nodup.map_on (fun c hc d hd he => ?_) (nodup_changesOf.of_map _)
    rw [(of_mem_changesOf hc).2.2, (of_mem_changesOf hd).2.2, (hpl hc hd he).1]
  · intro p hp hp'
    simp only [columnChanges, map_map, mem_map] at hp hp'
    obtain ⟨c, hc, rfl⟩ := hp
    obtain ⟨d, hd, he⟩ := hp'
    exact hne (hpl hd hc he).2.symm

/-- What the statements of a reaction do to the species columns. -/
structure CompositionAdded (species : List (Species Exact)) (progress : Progress) (r : Reaction ℕ Exact)
    (derivative : ℕ → ℝ) (σ τ : Memory) : Prop where
  entries : ∀ k < species.length, ∀ j, j + 1 < species.length → τ (compositionPlace species.length k j) =
      settle (if progress.composition.contains k then .add else .set)
        (σ (compositionPlace species.length k j)) (compositionTerm species r derivative k j)
  others : ∀ k < species.length, τ (temperaturePlace species.length k) = σ (temperaturePlace species.length k)

lemma CompositionAdded.of_frame {derivative : ℕ → ℝ}
    (h : CompositionAdded species progress r derivative τ υ) (hσ : ∀ p, Apart p → τ p = σ p) :
    CompositionAdded species progress r derivative σ υ where
  entries k hk j hj := by rw [h.entries k hk j hj, hσ _ (compositionPlace_apart _ k j)]
  others k hk := by rw [h.others k hk, hσ _ (temperaturePlace_apart _ k)]

lemma isSome_of_ready (hr : ready species ranks r ρ = true)
    (hz : Arithmetic.isZero (r.change k) = false) {j : ℕ} (hj : j + 1 < species.length) :
    (derivativeAt species ranks r ρ j).isSome = true := by
  have hi : ¬inert r = true := by
    rw [inert_iff species]
    exact ne_nil_of_mem (mem_changesOf hz)
  simp only [ready, hi, Bool.false_or, all_eq_true, mem_range] at hr
  exact hr j (by omega)

lemma compositionChanges_added (hb : ∀ s ∈ participants r, s < species.length) (hr : ready species ranks r ρ = true)
    (hτ : Changed (compositionChanges species progress ranks r ρ) σ τ) :
    CompositionAdded species progress r (fun j => (derivativeAt species ranks r ρ j).getD 0) σ τ where
  entries k hk j hj := by
    cases hz : Arithmetic.isZero (r.change k) with
    | true =>
      rw [compositionTerm, hz]
      refine hτ.others _ fun c hc hp => ?_
      obtain ⟨j', -, d, hd, rfl⟩ := mem_compositionChanges.1 hc
      have hdk := (of_mem_changesOf hd).2.1
      rw [(compositionPlace_injective (hb _ (of_mem_changesOf hd).1) hk hp).1, hz] at hdk
      cases hdk
    | false =>
      obtain ⟨x, hx⟩ := Option.isSome_iff_exists.1 (isSome_of_ready hr hz hj)
      rw [compositionTerm, hz]
      refine hτ.entries _ (mem_compositionChanges.2 ⟨j, hj, _, mem_changesOf hz, rfl⟩) _ ?_
      simp [compositionChange, hx]
  others k hk := by
    refine hτ.others _ fun c hc hp => ?_
    obtain ⟨j', -, d, hd, rfl⟩ := mem_compositionChanges.1 hc
    exact temperaturePlace_ne hk _ _ hp.symm

/-- The species columns are filled if all derivatives have a value that some entry needs. -/
lemma compositionChanges_run (hb : 1 < species.length → ∀ s ∈ participants r, s < species.length) :
    Option.Rel (fun τ ρ' => ρ' = ρ ∧ Agree workNames τ σ ∧ CompositionAdded species progress r
        (fun j => (derivativeAt species ranks r ρ j).getD 0) σ τ)
      (applyAll σ (compositionChanges species progress ranks r ρ))
      (if ready species ranks r ρ then some ρ else none) := by
  by_cases hn : 1 < species.length
  · have hb := hb hn
    cases hr : ready species ranks r ρ with
    | true =>
      have ha : ∀ c ∈ compositionChanges species progress ranks r ρ, c.amount.isSome = true := by
        intro c hc
        obtain ⟨j, hj, d, hd, rfl⟩ := mem_compositionChanges.1 hc
        exact Option.isSome_map.trans (isSome_of_ready hr (of_mem_changesOf hd).2.1 hj)
      obtain ⟨τ, hτ, hch⟩ := applyAll_some (σ := σ) (compositionPlaces_nodup hb) ha
      rw [hτ]
      refine .some ⟨rfl, hch.agree fun c hc => ?_, compositionChanges_added hb hr hch⟩
      obtain ⟨j, -, d, -, rfl⟩ := mem_compositionChanges.1 hc
      exact compositionPlace_apart _ d.1 j
    | false =>
      -- some derivative has no value, and there is a species whose entry needs it
      simp only [ready, Bool.or_eq_false_iff, all_eq_false, mem_range] at hr
      obtain ⟨hi, j, hj, hnn⟩ := hr
      obtain ⟨d, hd⟩ : ∃ d, d ∈ changesOf species r := by
        refine exists_mem_of_ne_nil _ fun hnl => ?_
        rw [(inert_iff species).2 hnl] at hi
        cases hi
      have hf : applyAll σ (compositionChanges species progress ranks r ρ) = none :=
        applyAll_none ⟨_, mem_compositionChanges.2 ⟨j, by omega, d, hd, rfl⟩, by simpa [compositionChange] using hnn⟩
      rw [hf]
      exact .none
  -- with one species there is no column
  · have hnl : compositionChanges species progress ranks r ρ = [] := by
      rw [compositionChanges, Nat.sub_eq_zero_of_le (by omega)]
      rfl
    have hr : ready species ranks r ρ = true := by
      rw [ready, Nat.sub_eq_zero_of_le (by omega)]
      exact Bool.or_true _
    rw [hnl, hr]
    exact .some ⟨rfl, fun _ _ _ => rfl, fun k _ j hj => absurd hj (by omega), fun _ _ => rfl⟩

/-- The statements of a reaction for the species columns prepare the derivatives over work variables
and add them to the columns. -/
lemma compositionItems_run (h : compositionItems species progress ranks r = .ok items) :
    ∃ start, compositionStart species ranks r = .ok start ∧
      ∀ σ ρ, Agree workNames σ ρ → Option.Rel (fun τ ρ' => Agree workNames τ ρ' ∧
        CompositionAdded species progress r (fun j => (derivativeAt species ranks r ρ' j).getD 0) σ τ)
        (runItems σ items) ((runItems ρ start).filter (ready species ranks r)) := by
  obtain ⟨start, fill, hs, rfl, hm, hb⟩ := compositionItems_eq h
  have hw := compositionStart_fits _ _ _ _ hs
  refine ⟨start, hs, fun σ ρ hσ => ?_⟩
  have hr : runItems σ (.step (speciesRemark ranks.all) :: start ++ fill) =
      (runItems σ start).bind fun τ => runItems τ fill := runItems_append σ start fill
  rw [hr, ← Option.bind_guard]
  refine rel_bind (runItems_work hw hσ) fun τ ρ' hτ => ?_
  rw [(hm ρ').run hτ.1]
  refine rel_imp (compositionChanges_run hb) ?_
  rintro υ _ ⟨rfl, ha, had⟩
  exact ⟨ha.trans hτ.1, had.of_frame hτ.2⟩

end Composition

/-! ## One reaction after the other -/

section Loop
variable {e : LoopSetting Exact} {s s' : LoopState Exact} {i : ℕ} {r : Reaction ℕ Exact}
  {items : List (Item Exact)} {σ₀ σ τ ρ : Memory} {shares : List Share}

/-- A reaction without shared memory: its two parts, one after the other. -/
lemma reactionStep_eq (hb : s.bank = none) (h : reactionStep e s i r = .ok (s', items)) : ∃ first written rows,
      temperaturePart e s.progress s.excess i r = .ok (first, written, s'.excess) ∧
      compositionItems e.species s.progress (ranksAt e.reactions i) r = .ok rows ∧
      compositionAfter e s.progress r = .ok s'.progress.composition ∧
      s'.progress.temperature = written ∧ s'.bank = none ∧ items = .load [] :: (first ++ rows ++ [.release []]) := by
  simp only [reactionStep, hb, Option.isSome_none, Bool.false_eq_true, if_false, pure_bind] at h
  obtain ⟨⟨all, progress, excess⟩, hi, h⟩ := bind_eq_ok.1 h
  obtain ⟨⟨bank, placed⟩, hp, h⟩ := bind_eq_ok.1 h
  obtain ⟨⟨first, written, next⟩, hf, hi⟩ := bind_eq_ok.1 hi
  obtain ⟨rows, hr, hi⟩ := bind_eq_ok.1 hi
  obtain ⟨composition, hc, hi⟩ := bind_eq_ok.1 hi
  cases pure_eq_ok.1 hi
  cases hp
  cases pure_eq_ok.1 h
  exact ⟨first, written, rows, hf, hr, hc, rfl, rfl, rfl⟩

lemma compositionAfter_eq {progress : Progress} (hn : 1 < e.species.length) {composition : List ℕ}
    (h : compositionAfter e progress r = .ok composition) :
    composition = meet progress.composition (changesOf e.species r) := by
  unfold compositionAfter at h
  rw [if_neg (by omega)] at h
  obtain ⟨changes, hc, h⟩ := bind_eq_ok.1 h
  obtain ⟨rfl, -⟩ := changed_eq hc
  exact (pure_eq_ok.1 h).symm

/-- What the statements of a reaction do to the matrix. -/
structure ReactionAdded (e : LoopSetting Exact) (s s' : LoopState Exact) (share : Share) (σ τ : Memory) : Prop where
  temperature : ∀ k < e.species.length, τ (temperaturePlace e.species.length k) =
    settle (if k + 1 < e.species.length && s.progress.temperature.contains k then .add else .set)
      (σ (temperaturePlace e.species.length k)) (temperatureTerm e.species share.reaction share.slope k)
  composition : ∀ k < e.species.length, ∀ j, j + 1 < e.species.length → τ (compositionPlace e.species.length k j) =
      settle (if s.progress.composition.contains k then .add else .set) (σ (compositionPlace e.species.length k j))
        (compositionTerm e.species share.reaction share.derivative k j)
  mem_temperature : ∀ k, k ∈ s'.progress.temperature ↔ k ∈ s.progress.temperature ∨
    (temperatureTerm e.species share.reaction share.slope k).isSome = true
  mem_composition : 1 < e.species.length → ∀ k, k ∈ s'.progress.composition ↔
    k ∈ s.progress.composition ∨ Arithmetic.isZero (share.reaction.change k) = false

/-- The statements of a reaction compute its share and add it to the matrix. -/
lemma reactionStep_run (hs : e.unrolled = false) (hb : s.bank = none)
    (h : reactionStep e s i r = .ok (s', items)) (hσ : Agree workNames σ ρ) :
    Option.Rel (fun τ x => Agree workNames τ x.2.2 ∧ x.2.1 = s'.excess ∧ x.1.reaction = r ∧
      ReactionAdded e s s' x.1 σ τ) (runItems σ items) (shareOf e s.excess i r ρ) := by
  obtain ⟨first, written, rows, hf, hr, ha, hw, -, rfl⟩ := reactionStep_eq hb h
  obtain ⟨slope, writes, ht, hm, htr⟩ := temperaturePart_run hs hf
  obtain ⟨start, hst, hc⟩ := compositionItems_run hr
  have hrn : runItems σ (.load [] :: (first ++ rows ++ [.release []])) =
      (runItems σ first).bind fun τ => runItems τ rows := by
    have hrl : (fun τ => runItems τ [Item.release []]) = some := rfl
    change runItems σ (first ++ rows ++ [.release []]) = _
    rw [runItems_append, runItems_append, hrl, Option.bind_fun_some]
  rw [hrn, shareOf_ok ht hst]
  refine rel_bind (htr σ ρ hσ) fun τ ρ₁ hτ => ?_
  rw [← Option.bind_fun_some (runItems τ rows)]
  refine rel_bind (hc τ ρ₁ hτ.1) fun υ ρ₂ hυ => .some ⟨hυ.1, rfl, rfl, ?_, ?_, ?_, ?_⟩
  · intro k hk
    rw [hυ.2.others k hk, hτ.2.entries k hk]
  · intro k hk j hj
    rw [hυ.2.entries k hk j hj, hτ.2.others k j]
  · intro k
    rw [hw, hm k, temperatureTerm]
    cases writes <;> cases Arithmetic.isZero (r.change k) <;> simp
  · intro hn k
    rw [compositionAfter_eq hn ha, mem_meet]

/-- What the reactions add to an entry of the temperature column, in their order. -/
def temperatureTerms (species : List (Species Exact)) (k : ℕ) (shares : List Share) : List ℝ :=
  shares.filterMap fun share => temperatureTerm species share.reaction share.slope k

/-- What the reactions add to an entry of a species column, in their order. -/
def compositionTerms (species : List (Species Exact)) (k j : ℕ) (shares : List Share) : List ℝ :=
  shares.filterMap fun share => compositionTerm species share.reaction share.derivative k j

/-- An entry after terms have been added to it; the first one replaces what was there. -/
def total (old : ℝ) (terms : List ℝ) : ℝ := if terms.isEmpty then old else terms.sum

lemma filterMap_snoc {β γ : Type} (f : β → Option γ) (xs : List β) (x : β) :
    (xs ++ [x]).filterMap f = xs.filterMap f ++ (f x).toList := by
  cases hx : f x <;> simp [hx]

lemma temperatureTerms_snoc (sp : List (Species Exact)) (k : ℕ) (shares : List Share)
    (share : Share) : temperatureTerms sp k (shares ++ [share]) =
      temperatureTerms sp k shares ++ (temperatureTerm sp share.reaction share.slope k).toList :=
  filterMap_snoc _ shares share

lemma compositionTerms_snoc (sp : List (Species Exact)) (k j : ℕ) (shares : List Share)
    (share : Share) : compositionTerms sp k j (shares ++ [share]) = compositionTerms sp k j shares ++
        (compositionTerm sp share.reaction share.derivative k j).toList :=
  filterMap_snoc _ shares share

lemma total_snoc (old : ℝ) {terms : List ℝ} {seen : Bool} (h : seen = true ↔ terms ≠ []) (term : Option ℝ) :
    total old (terms ++ term.toList) = settle (if seen then .add else .set) (total old terms) term := by
  cases term with
  | none => rw [Option.toList_none, append_nil]; rfl
  | some v =>
    cases terms with
    | nil =>
      have hs : seen = false := by simpa using h
      simp [total, hs, settle, Form.update]
    | cons x xs =>
      have hs : seen = true := h.2 (cons_ne_nil x xs)
      simp [total, hs, settle, Form.update, add_assoc]

lemma compositionTerm_isSome (sp : List (Species Exact)) (derivative : ℕ → ℝ) (k j : ℕ) :
    (compositionTerm sp r derivative k j).isSome = true ↔ Arithmetic.isZero (r.change k) = false := by
  unfold compositionTerm
  cases Arithmetic.isZero (r.change k) <;> simp

/-- The entries hold what the reactions so far have added. Entries of the last species in the
temperature column hold only what the last reaction has added. -/
structure Filled (e : LoopSetting Exact) (σ₀ : Memory) (shares : List Share) (progress : Progress)
    (σ : Memory) : Prop where
  mem_temperature : ∀ k, k ∈ progress.temperature ↔ temperatureTerms e.species k shares ≠ []
  mem_composition : 1 < e.species.length → ∀ k j, k ∈ progress.composition ↔ compositionTerms e.species k j shares ≠ []
  inner : ∀ k, k + 1 < e.species.length → σ (temperaturePlace e.species.length k) =
    total (σ₀ (temperaturePlace e.species.length k)) (temperatureTerms e.species k shares)
  last : ∀ k, k + 1 = e.species.length → σ (temperaturePlace e.species.length k) =
    (temperatureTerms e.species k shares).getLast?.getD (σ₀ (temperaturePlace e.species.length k))
  composition : ∀ k < e.species.length, ∀ j, j + 1 < e.species.length → σ (compositionPlace e.species.length k j) =
      total (σ₀ (compositionPlace e.species.length k j)) (compositionTerms e.species k j shares)

lemma filled_start (e : LoopSetting Exact) (σ₀ : Memory) : Filled e σ₀ [] {} σ₀ where
  mem_temperature k := by simp [temperatureTerms]
  mem_composition _ k j := by simp [compositionTerms]
  inner _ _ := rfl
  last _ _ := rfl
  composition _ _ _ _ := rfl

lemma Filled.step {share : Share} (hf : Filled e σ₀ shares s.progress σ)
    (h : ReactionAdded e s s' share σ τ) : Filled e σ₀ (shares ++ [share]) s'.progress τ where
  mem_temperature k := by
    rw [h.mem_temperature, hf.mem_temperature, temperatureTerms_snoc]
    cases temperatureTerm e.species share.reaction share.slope k <;> simp
  mem_composition hn k j := by
    rw [h.mem_composition hn, hf.mem_composition hn k j, compositionTerms_snoc,
      ← compositionTerm_isSome e.species share.derivative k j]
    cases compositionTerm e.species share.reaction share.derivative k j <;> simp
  inner k hk := by
    have hs : (decide (k + 1 < e.species.length) && s.progress.temperature.contains k) = true ↔
        temperatureTerms e.species k shares ≠ [] := by
      simp [hk, hf.mem_temperature]
    rw [h.temperature k (by omega), hf.inner k hk, temperatureTerms_snoc]
    exact (total_snoc _ hs _).symm
  last k hk := by
    rw [h.temperature k (by omega), hf.last k hk, temperatureTerms_snoc]
    -- whatever was added before, the entry of the last species counts as not yet written
    have hst : (decide (k + 1 < e.species.length) && s.progress.temperature.contains k) = false := by
      simp [hk]
    rw [hst]
    cases temperatureTerm e.species share.reaction share.slope k with
    | none => rw [Option.toList_none, append_nil]; rfl
    | some v => simp [settle, Form.update]
  composition k hk j hj := by
    have hs : s.progress.composition.contains k = true ↔ compositionTerms e.species k j shares ≠ [] := by
      rw [contains_iff_mem, hf.mem_composition (by omega) k j]
    rw [h.composition k hk j hj, hf.composition k hk j hj, compositionTerms_snoc]
    exact (total_snoc _ hs _).symm

variable {rest : List (Reaction ℕ Exact × ℕ)}

/-- Reaction by reaction, the loop computes the shares and keeps the entries filled. -/
lemma reactionRun_run (hsn : e.unrolled = false)
    (hb : s.bank = none) (h : reactionRun e s rest = .ok (s', items)) (hσ : Agree workNames σ ρ)
    (hf : Filled e σ₀ shares s.progress σ) : Option.Rel (fun τ more => more.map Share.reaction = rest.map Prod.fst ∧
      Filled e σ₀ (shares ++ more) s'.progress τ) (runItems σ items) (loopShares e s.excess ρ rest) := by
  -- `shares` belongs to the reactions already run, `ρ` to a run that never sees the matrix
  induction rest generalizing s σ ρ shares items with
  | nil =>
    cases h
    exact .some ⟨rfl, by rwa [append_nil]⟩
  | cons x rest ih =>
    obtain ⟨r, i⟩ := x
    obtain ⟨⟨s₁, first⟩, hst, h⟩ := bind_eq_ok.1 h
    obtain ⟨⟨s₂, more⟩, hr, h⟩ := bind_eq_ok.1 h
    cases pure_eq_ok.1 h
    rw [runItems_append, loopShares]
    refine rel_bind (reactionStep_run hsn hb hst hσ) ?_
    rintro τ ⟨share, excess, ρ'⟩ ⟨ha, rfl, rfl, had⟩
    obtain ⟨-, -, -, -, -, -, -, hb', -⟩ := reactionStep_eq hb hst
    rw [← Option.bind_fun_some (runItems τ more)]
    refine rel_bind (ih hb' hr ha (hf.step had)) fun υ shares' hs => .some ?_
    rw [append_assoc] at hs
    exact ⟨by rw [map_cons, map_cons, hs.1], hs.2⟩

/-! ## What the loop writes -/

/-- A reaction writes to work variables and to the entries of the species that it changes. -/
def Allowed (species : List (Species Exact)) (r : Reaction ℕ Exact) (p : Place) : Prop :=
  ¬Apart p ∨ ∃ k, Arithmetic.isZero (r.change k) = false ∧ k < species.length ∧
    (p = temperaturePlace species.length k ∨ ∃ j, p = compositionPlace species.length k j)

lemma allowed_work {sp : List (Species Exact)} {i : Item Exact} (hi : i.Work) {p : Place}
    (hp : p ∈ i.writes) : Allowed sp r p := by
  obtain ⟨a, ha, k, rfl⟩ := hi.writes id And.right hp
  exact .inl fun h => h a ha k rfl

variable {progress : Progress}

lemma temperaturePart_writes {excess next : Option (Excess Exact)} {written : List ℕ} (hsn : e.unrolled = false)
    (h : temperaturePart e progress excess i r = .ok (items, written, next)) :
    ∀ item ∈ items, ∀ p ∈ item.writes, Allowed e.species r p := by
  obtain ⟨slope, writes, fill, ht, rfl, hm, hb, -⟩ := temperaturePart_eq hsn h
  refine forall_mem_append.2 ⟨fun item hi p hp => ?_, fun item hi p hp => ?_⟩
  · exact allowed_work (temperatureItems_fits _ _ _ _ ht item hi) hp
  · obtain ⟨c, hc, rfl⟩ := (hm fun _ => 0).mem_writes hi hp
    obtain ⟨hw, d, hd, rfl⟩ := mem_temperatureChanges.1 hc
    obtain ⟨hm, hz, -⟩ := of_mem_changesOf hd
    exact .inr ⟨d.1, hz, hb hw _ hm, .inl rfl⟩

lemma compositionItems_writes {sp : List (Species Exact)} {ranks : Ranks}
    (h : compositionItems sp progress ranks r = .ok items) :
    ∀ item ∈ items, ∀ p ∈ item.writes, Allowed sp r p := by
  obtain ⟨start, fill, hs, rfl, hm, hb⟩ := compositionItems_eq h
  refine forall_mem_cons.2 ⟨forall_mem_nil _, forall_mem_append.2 ⟨fun item hi p hp => ?_, fun item hi p hp => ?_⟩⟩
  · exact allowed_work (compositionStart_fits _ _ _ _ hs item hi) hp
  · obtain ⟨c, hc, rfl⟩ := (hm fun _ => 0).mem_writes hi hp
    obtain ⟨j, hj, d, hd, rfl⟩ := mem_compositionChanges.1 hc
    obtain ⟨hmm, hz, -⟩ := of_mem_changesOf hd
    exact .inr ⟨d.1, hz, hb (by omega) _ hmm, .inr ⟨j, rfl⟩⟩

lemma reactionRun_writes (hs : e.unrolled = false) (hb : s.bank = none) (h : reactionRun e s rest = .ok (s', items)) :
    ∀ item ∈ items, ∀ p ∈ item.writes, ∃ x ∈ rest, Allowed e.species x.1 p := by
  induction rest generalizing s items with
  | nil => cases h; simp
  | cons x rest ih =>
    obtain ⟨⟨s₁, first⟩, hst, h⟩ := bind_eq_ok.1 h
    obtain ⟨⟨s₂, more⟩, hr, h⟩ := bind_eq_ok.1 h
    cases pure_eq_ok.1 h
    obtain ⟨part, written, rows, hpr, hrw, -, -, hb', rfl⟩ := reactionStep_eq hb hst
    intro item hi p hp
    simp only [mem_append, mem_cons, not_mem_nil, or_false] at hi
    obtain (hi | (hi | hi) | hi) | hi := hi
    · rw [hi] at hp
      cases hp
    · exact ⟨x, mem_cons_self, temperaturePart_writes hs hpr item hi p hp⟩
    · exact ⟨x, mem_cons_self, compositionItems_writes hrw item hi p hp⟩
    · rw [hi] at hp
      cases hp
    · obtain ⟨y, hy, ha⟩ := ih hb' hr item hi p hp
      exact ⟨y, mem_cons_of_mem _ hy, ha⟩

end Loop

/-! ## The matrix does not matter for the shares -/

section Independence
variable {sp : List (Species Exact)} {ranks : Ranks} {r : Reaction ℕ Exact} {σ σ' ρ ρ' : Memory}

def SameOutsideMatrix (σ σ' : Memory) : Prop :=
  ∀ array, array ∉ ["jac", "J_nplusone", "J_nplusjplus"] → ∀ i, σ (.cell array i) = σ' (.cell array i)

lemma SameOutsideMatrix.agree (h : SameOutsideMatrix σ σ') : Agree workNames σ σ' := by
  intro a ha i
  refine h a (fun hm => ?_) i
  have hd : ∀ array ∈ ["jac", "J_nplusone", "J_nplusjplus"], array ∉ workNames := by
    simp [workNames]
  exact hd a hm ha

lemma derivativeAt_congr (h : Agree workNames ρ ρ') : derivativeAt sp ranks r ρ = derivativeAt sp ranks r ρ' := by
  funext j
  unfold derivativeAt
  cases hd : speciesDerivative sp ranks r j (memberAt sp j).weight with
  | error => rfl
  | ok derivative => exact value_congr workGrammar_only h (speciesDerivative_fits _ _ _ _ _ _ hd)

lemma ready_congr (h : Agree workNames ρ ρ') : ready sp ranks r ρ = ready sp ranks r ρ' := by
  rw [ready, ready, derivativeAt_congr h]

lemma shareOf_congr (e : LoopSetting Exact) (excess : Option (Excess Exact)) (i : ℕ) (h : Agree workNames ρ ρ') :
    Option.Rel (fun x y => x.1 = y.1 ∧ x.2.1 = y.2.1 ∧ Agree workNames x.2.2 y.2.2)
      (shareOf e excess i r ρ) (shareOf e excess i r ρ') := by
  cases ht : temperatureItems excess (ranksAt e.reactions i) r with
  | error => rw [shareOf, shareOf, ht]; exact .none
  | ok x =>
    obtain ⟨slope, writes, next⟩ := x
    cases hs : compositionStart e.species (ranksAt e.reactions i) r with
    | error => rw [shareOf, shareOf, ht, hs]; exact .none
    | ok start =>
      rw [shareOf_ok ht hs, shareOf_ok ht hs]
      refine rel_bind (runItems_work (temperatureItems_fits _ _ _ _ ht) h) fun ρ₁ ρ₁' h₁ => ?_
      rw [← Option.bind_guard, ← Option.bind_guard, Option.bind_assoc, Option.bind_assoc]
      refine rel_bind (runItems_work (compositionStart_fits _ _ _ _ hs) h₁.1) fun ρ₂ ρ₂' h₂ => ?_
      have hsl : ρ₁.var "j_temp" = ρ₁'.var "j_temp" := h₁.1 "j_temp" (by simp [workNames]) none
      rw [Option.guard, Option.guard, ready_congr h₂.1, hsl]
      split
      · refine .some ⟨?_, rfl, h₂.1⟩
        rw [derivativeAt_congr h₂.1]
      · exact .none

lemma loopShares_congr (e : LoopSetting Exact) (excess : Option (Excess Exact))
    (rest : List (Reaction ℕ Exact × ℕ)) (h : Agree workNames ρ ρ') :
    loopShares e excess ρ rest = loopShares e excess ρ' rest := by
  induction rest generalizing excess ρ ρ' with
  | nil => rfl
  | cons x rest ih =>
    have hr := shareOf_congr (r := x.1) e excess x.2 h
    rw [loopShares, loopShares]
    generalize shareOf e excess x.2 x.1 ρ = a at hr
    generalize shareOf e excess x.2 x.1 ρ' = b at hr
    cases hr with
    | none => rfl
    | @some y z hyz =>
      obtain ⟨share, next, ρ₁⟩ := y
      obtain ⟨share', next', ρ₁'⟩ := z
      obtain ⟨rfl, rfl, ha⟩ := hyz
      change (loopShares e next ρ₁ rest).bind _ = (loopShares e next ρ₁' rest).bind _
      rw [ih next ha]

end Independence

end

end Kinetics.Jacobian
