import Kinetics.Proofs.ReactionLoop
import Kinetics.Proofs.SpeciesDerivative
/-!
# The columns of the matrix after the reaction loop

An entry of a species column is the sum of what the reactions add to it. In the
temperature column this holds for all species but the last. The entry of the last
species is assigned anew by every reaction that changes it, so that it holds only
what the last such reaction adds.
-/

open List

namespace Kinetics.Jacobian

open Code Rate

noncomputable section

/-! ## Loops that can be written

The code of elementary and third-body reactions exists for every such mechanism
with more than one species. -/

section Written
variable {e : LoopSetting Exact} {s : LoopState Exact} {i n : ℕ} {r : Reaction ℕ Exact}

lemma equilibriumSlope_ok (h : SimpleReaction n r) : ∃ slope, equilibriumSlope r = .ok slope := by
  have hp : ∀ s ∈ r.products, ∃ x, Reaction.coefficient r.products r.productNu s = .ok x :=
    fun s hs => coefficient_ok h.products.length_eq.ge hs
  have hr : ∀ s ∈ r.reactants, ∃ x, Reaction.coefficient r.reactants r.reactantNu s = .ok x :=
    fun s hs => coefficient_ok h.reactants.length_eq.ge hs
  refine exists_bind_ok (filterMapM_ok fun s hs => exists_bind_ok (hp s hs) fun made => ?_)
    fun products => exists_bind_ok (mapM_ok fun s hs => ?_) fun reactants => ⟨_, rfl⟩
  · split
    · next hb => exact exists_bind_ok (hr s (contains_iff_mem.1 hb)) fun _ => ⟨_, rfl⟩
    · exact ⟨_, rfl⟩
  · exact exists_bind_ok (hr s (mem_of_mem_filter hs)) fun _ => ⟨_, rfl⟩

lemma elementaryBody_ok (h : SimpleReaction n r) (k : Ranks) : ∃ body, elementaryBody k r = .ok body := by
  unfold elementaryBody
  split
  · split
    · refine exists_bind_ok (equilibriumSlope_ok h) fun slope => ?_
      dsimp only
      split <;> exact ⟨_, rfl⟩
    · next hr =>
      rcases h.reverse with hn | ⟨a, b, c, rest, he, -⟩
      · simp [hn] at hr
      · rw [twoWayBody, reverseSlope, he]
        exact ⟨_, rfl⟩
  · exact ⟨_, rfl⟩

lemma temperatureItems_ok (h : SimpleReaction n r) (excess : Option (Excess Exact)) (k : Ranks) :
    ∃ x, temperatureItems excess k r = .ok x := by
  refine exists_bind_ok ?_ fun x => exists_bind_ok ?_ fun assignment => ⟨_, rfl⟩
  · rw [leadingPart, h.falloff, if_neg Bool.false_ne_true]
    split <;> exact ⟨_, rfl⟩
  · rw [slopeAssignment, h.plog, h.chebyshev]
    exact exists_bind_ok (elementaryBody_ok h k) fun body => ⟨_, rfl⟩

lemma changed_ok (h : SimpleReaction e.species.length r) : changed e.species r = .ok (changesOf e.species r) := by
  refine filterMapM_eq_ok_filterMap fun s hs => ?_
  have ha := Reaction.Side.aligned h.reactants.toSide h.products.toSide
  rw [entryAt_eq_ok.2 (h.arrhenius.getElem? s hs), Reaction.net_eq ha]
  rfl

lemma temperaturePart_ok (h : SimpleReaction e.species.length r) (hn : 1 < e.species.length)
    (progress : Progress) (excess : Option (Excess Exact)) : ∃ x, temperaturePart e progress excess i r = .ok x := by
  refine exists_bind_ok (temperatureItems_ok h excess _) fun x => ?_
  dsimp only
  split
  · refine exists_bind_ok ⟨_, changed_ok h⟩ fun changes => exists_bind_ok (mapM_ok fun c _ => ?_) fun steps => ⟨_, rfl⟩
    dsimp only
    rw [temperatureForm, if_neg (by omega)]
    split <;> exact ⟨_, rfl⟩
  · exact ⟨_, rfl⟩

lemma compositionItems_ok (h : SimpleReaction e.species.length r)
    (hw : ∀ sp ∈ e.species, 0 < sp.weight.toReal) (progress : Progress) (k : Ranks) :
    ∃ items, compositionItems e.species progress k r = .ok items := by
  refine exists_bind_ok ((compositionStart_run h k).imp fun _ h => h.1) fun start =>
    exists_bind_ok (mapM_ok fun x hx => ?_) fun columns => ⟨_, rfl⟩
  have hsp : x.1 ∈ e.species := mem_of_mem_dropLast (fst_mem_of_mem_zipIdx hx)
  have hl := List.getLast?_eq_some_getLast (ne_nil_of_mem hsp)
  refine exists_bind_ok ((speciesDerivative_ok h k x.2 hl (hw _ hsp) (hw _ (getLast_mem _))).imp fun _ h => h.1)
    fun derivative => exists_bind_ok ⟨_, changed_ok h⟩ fun changes =>
      exists_bind_ok (mapM_ok fun c _ => exists_bind_ok ⟨_, Exact.div_ok (hw _ hsp).ne'⟩ fun _ => ⟨_, rfl⟩)
        fun steps => ⟨_, rfl⟩

lemma reactionStep_ok (hb : s.bank = none) (h : SimpleReaction e.species.length r)
    (hn : 1 < e.species.length) (hw : ∀ sp ∈ e.species, 0 < sp.weight.toReal) :
    ∃ s' items, reactionStep e s i r = .ok (s', items) ∧ s'.bank = none := by
  obtain ⟨⟨first, written, next⟩, hf⟩ := temperaturePart_ok (i := i) h hn s.progress s.excess
  obtain ⟨rows, hr⟩ := compositionItems_ok h hw s.progress (ranksAt e.reactions i)
  have ha : compositionAfter e s.progress r = .ok (meet s.progress.composition (changesOf e.species r)) := by
    rw [compositionAfter, if_neg (by omega), changed_ok h]
    rfl
  have hi : reactionItems e s.progress s.excess i r = .ok (first ++ rows,
      ⟨written, meet s.progress.composition (changesOf e.species r)⟩, next) := by
    simp only [reactionItems, hf, hr, ha]
    rfl
  simp only [reactionStep, hb, hi]
  exact ⟨_, _, rfl, rfl⟩

lemma reactionRun_ok {rest : List (Reaction ℕ Exact × ℕ)} (hb : s.bank = none)
    (h : ∀ x ∈ rest, SimpleReaction e.species.length x.1) (hn : 1 < e.species.length)
    (hw : ∀ sp ∈ e.species, 0 < sp.weight.toReal) :
    ∃ s' items, reactionRun e s rest = .ok (s', items) ∧ s'.bank = none := by
  induction rest generalizing s with
  | nil => exact ⟨s, [], rfl, hb⟩
  | cons x rest ih =>
    obtain ⟨s₁, first, hf, hb₁⟩ := reactionStep_ok (i := x.2) hb (h x mem_cons_self) hn hw
    obtain ⟨s₂, more, hm, hb₂⟩ := ih hb₁ fun y hy => h y (mem_cons_of_mem _ hy)
    exact ⟨s₂, first ++ more, by simp only [reactionRun, hf, hm, ok_bind]; rfl, hb₂⟩

end Written

/-! ## Two isomers

Butane turns into isobutane and back. Both reactions change the last species. -/

section Isomers

def isomers : List (Species Exact) :=
  [{ Species.named "C4H10" with weight := .measure 58 }, { Species.named "i-C4H10" with weight := .measure 58 }]

def isomerization (a b : ℕ) : Reaction ℕ Exact :=
  Reaction.elementary false [a] [.count 1] [b] [.count 1] (.measure 1) (.count 1) (.measure 0)

def isomerizations : List (Reaction ℕ Exact) := [isomerization 0 1, isomerization 1 0]

lemma isomerization_simple {n a b : ℕ} (ha : a < n) (hb : b < n) : SimpleReaction n (isomerization a b) where
  falloff := rfl
  plog := rfl
  chebyshev := rfl
  collider := rfl
  reactants := wholeSide_single one_pos (by simp)
  products := wholeSide_single one_pos (by simp)
  members := by
    intro s hs
    simp only [mem_participants, isomerization, Reaction.elementary, mem_singleton] at hs
    rcases hs with rfl | rfl
    · exact ha
    · exact hb
  efficiencies := nodup_nil
  factor := by norm_num [isomerization, Reaction.elementary]
  reverse := .inl rfl

lemma isomers_weights : ∀ sp ∈ isomers, 0 < sp.weight.toReal := by
  norm_num [isomers]

lemma isomerizations_simple : ∀ x ∈ isomerizations.zipIdx, SimpleReaction isomers.length x.1 := by
  intro x hx
  obtain h | h := mem_pair.1 (fst_mem_of_mem_zipIdx hx) <;> rw [h]
  · exact isomerization_simple (by decide) (by decide)
  · exact isomerization_simple (by decide) (by decide)

lemma isomerization_body (k : Ranks) (a b : ℕ) :
    elementaryBody k (isomerization a b) = .ok (some (k.forward * .group (.full (.count 1)))) := by
  have hb : matters (.count 1 : Exact) = true := by
    rw [matters, Exact.lt_iff]
    change Decimal.toReal ⟨10, 1, -90⟩ < _
    norm_num [Decimal.toReal]
  have hE : matters (.measure 0 : Exact) = false := by
    rw [Bool.eq_false_iff, ne_eq, matters, Exact.lt_iff]
    change ¬Decimal.toReal ⟨10, 1, -90⟩ < _
    norm_num [Decimal.toReal]
  have hs : rateSlope (.count 1) (.measure 0) = some (.full (.count 1 : Exact)) := by
    rw [rateSlope, hb, hE]
    rfl
  have ho : orderTerm [(.count 1 : Exact)] = none := by
    rw [orderTerm, (Exact.eq_iff _ _).2 (by simp)]
    rfl
  have hf : forwardBody k (isomerization a b) = some (k.forward * .group (.full (.count 1))) := by
    simp only [forwardBody, isomerization, Reaction.elementary, hs, ho]
    rfl
  rw [← hf]
  rfl

lemma plainLead_value (ρ : Memory) (i : ℕ) :
    (plainLead.value (.cell "fwd_rates" i * .group (.full (.count 1)))).value ρ =
      some (1 / ρ.var "T" * (ρ.row "fwd_rates" i * 1) * ρ.var "rho_inv") := by
  have hf : Factor ρ (.full (.count 1)) 1 := by
    simpa using Factor.full (.count 1)
  have hs := ((Factor.one (σ := ρ)).term.div (Factor.var "T")).value
  have hb := ((Factor.cell "fwd_rates" i).term.mul (Factor.group hf.value).term).value
  have hm := ((Factor.group hs).term.mul (Factor.group hb).term).value
  exact ((Factor.group hm).term.mul (Factor.var "rho_inv").term).value

variable {r : Reaction ℕ Exact}

lemma ready_of_simple {species : List (Species Exact)}
    (h : SimpleReaction species.length r) (hw : ∀ sp ∈ species, 0 < sp.weight.toReal) (k : Ranks)
    (ρ : Memory) : ready species k r ρ = true := by
  rw [ready, Bool.or_eq_true, all_eq_true]
  refine .inr fun j hj => ?_
  rw [mem_range] at hj
  have hm : memberAt species j ∈ species := mem_of_getElem? (getElem?_memberAt (by omega))
  have hl := List.getLast?_eq_some_getLast (ne_nil_of_mem hm)
  obtain ⟨derivative, hd, hv⟩ := speciesDerivative_ok h k j hl (hw _ hm) (hw _ (getLast_mem _))
  rw [derivativeAt, hd]
  exact Option.isSome_iff_exists.2 ⟨_, hv ρ⟩

variable {a b : ℕ}

lemma isomerization_share {e : LoopSetting Exact}
    (hs : SimpleReaction e.species.length (isomerization a b)) (hw : ∀ sp ∈ e.species, 0 < sp.weight.toReal)
    (excess : Option (Excess Exact)) (i : ℕ) (ρ : Memory) :
    ∃ derivative ρ', shareOf e excess i (isomerization a b) ρ = some (⟨isomerization a b,
        some (1 / ρ.var "T" * (ρ.row "fwd_rates" i * 1) * ρ.var "rho_inv"), derivative⟩, excess, ρ') ∧
      ρ'.var "T" = ρ.var "T" ∧ ρ'.var "rho_inv" = ρ.var "rho_inv" ∧
      ρ'.row "fwd_rates" = ρ.row "fwd_rates" := by
  obtain ⟨start, hst, hrn⟩ := compositionStart_run hs (ranksAt e.reactions i)
  have ht : temperatureItems excess (ranksAt e.reactions i) (isomerization a b) =
      .ok ([.step (temperatureRemark i), .consult (plainLead.value (.hole : Expr Exact)).cells,
        .step (.setVar "j_temp" (plainLead.value (.cell "fwd_rates" i * .group (.full (.count 1)))))],
        true, excess) := by
    have ha : slopeAssignment plainLead (ranksAt e.reactions i) (isomerization a b) = .ok (some [.step (.setVar "j_temp"
          (plainLead.value (.cell "fwd_rates" i * .group (.full (.count 1)))))]) := by
      simp only [slopeAssignment, isomerization_body]
      rfl
    have hl : leadingPart excess (ranksAt e.reactions i) (isomerization a b) = .ok ([], plainLead, excess) := rfl
    simp only [temperatureItems, hl, ha, ok_bind]
    rfl
  have hv := plainLead_value ρ i
  obtain ⟨Kc, x, kr, hstartRun, -, -⟩ := hrn (ρ.setVar "j_temp"
    (1 / ρ.var "T" * (ρ.row "fwd_rates" i * 1) * ρ.var "rho_inv"))
  have ho : ¬Orderless (isomerization a b) := by
    norm_num [Orderless, isomerization, Reaction.elementary]
  rw [if_neg ho] at hstartRun
  have hr := ready_of_simple hs hw (ranksAt e.reactions i)
  rw [shareOf_ok ht hst]
  simp only [runItems, Item.run, run_remark, temperatureRemark, run_setVar "j_temp" hv, Option.bind_some,
    hstartRun, Option.filter_some, hr]
  refine ⟨_, _, rfl, ?_, ?_, ?_⟩ <;> simp

lemma isomerizations_shares (σ : Memory) :
    ∃ d d', loopShares ⟨isomers, isomerizations, false⟩ none σ isomerizations.zipIdx = some [
      ⟨isomerization 0 1, some (1 / σ.var "T" * (σ.row "fwd_rates" 0 * 1) * σ.var "rho_inv"), d⟩,
      ⟨isomerization 1 0, some (1 / σ.var "T" * (σ.row "fwd_rates" 1 * 1) * σ.var "rho_inv"), d'⟩] := by
  obtain ⟨d, ρ, hf, hT, hrh, hr⟩ := isomerization_share (e := ⟨isomers, isomerizations, false⟩)
    (a := 0) (b := 1) (isomerization_simple (by decide) (by decide)) isomers_weights none 0 σ
  obtain ⟨d', ρ', hs, -⟩ := isomerization_share (e := ⟨isomers, isomerizations, false⟩)
    (a := 1) (b := 0) (isomerization_simple (by decide) (by decide)) isomers_weights none 1 ρ
  rw [hT, hrh, hr] at hs
  refine ⟨d, d', ?_⟩
  change loopShares _ none σ [(isomerization 0 1, 0), (isomerization 1 0, 1)] = _
  simp only [loopShares, hf, hs, Option.bind_eq_bind, Option.bind_some]
  rfl

lemma isomerization_changes (h : a ≠ b) :
    ((isomerization a b).change a).toReal = -1 ∧ ((isomerization a b).change b).toReal = 1 := by
  have hc : ∀ s : ℕ, Reaction.coefficient [s] [(.count 1 : Exact)] s = .ok (.count 1) := by
    intro s
    simp [Reaction.coefficient]
  constructor
  · rw [Reaction.change_of_reactant (by simpa [isomerization, Reaction.elementary] using h)
      (mem_singleton_self a) (hc a)]
    simp
  · rw [Reaction.change_of_product (mem_singleton_self b)
      (by simpa [isomerization, Reaction.elementary] using h.symm) (hc b)]
    simp

lemma isomer_term {k : ℕ} (hk : k < 2) {ν : ℝ} (hν : (r.change k).toReal = ν)
    (h : ν ≠ 0) (x : ℝ) : temperatureTerm isomers r (some x) k = some (ν * x * 58) := by
  have hw : (memberAt isomers k).weight.toReal = 58 := by
    obtain rfl | rfl : k = 0 ∨ k = 1 := by omega
    · rfl
    · rfl
  rw [temperatureTerm, (Exact.isZero_false_iff _).2 (hν ▸ h), hν, hw]
  rfl

end Isomers

/-! ## The species columns are sums over all reactions -/

section Columns
variable {sp : List (Species Exact)} {rs : List (Reaction ℕ Exact)} {state : LoopState Exact}
  {items : List (Item Exact)}

lemma loop_rel (h : reactionRun ⟨sp, rs, false⟩ {} rs.zipIdx = .ok (state, items)) (σ : Memory) :
    Option.Rel (fun τ shares => shares.map Share.reaction = rs ∧
      Filled ⟨sp, rs, false⟩ σ shares state.progress τ) (runItems σ items)
      (loopShares ⟨sp, rs, false⟩ none σ rs.zipIdx) := by
  have hr := reactionRun_run rfl rfl h (fun _ _ _ => rfl) (filled_start _ σ)
  rwa [zipIdx_map_fst] at hr

lemma total_of_ne_nil {old : ℝ} {terms : List ℝ} (h : terms ≠ []) : total old terms = terms.sum := by
  rw [total, isEmpty_eq_false_iff.2 h]
  rfl

lemma compositionTerms_ne_nil {shares : List Share} (hs : shares.map Share.reaction = rs)
    {k : ℕ} (hk : ∃ r ∈ rs, (r.change k).toReal ≠ 0) (j : ℕ) : compositionTerms sp k j shares ≠ [] := by
  obtain ⟨r, hr, hne⟩ := hk
  rw [← hs] at hr
  obtain ⟨share, hsh, rfl⟩ := mem_map.1 hr
  obtain ⟨x, hx⟩ := Option.isSome_iff_exists.1 ((compositionTerm_isSome sp share.derivative k j).2
    ((Exact.isZero_false_iff _).2 hne))
  exact ne_nil_of_mem (mem_filterMap.2 ⟨share, hsh, hx⟩)

/-- After the reaction loop, an entry in the column of a species is the sum of what the reactions add
that change the species of its row, with the derivative of each reaction. The loop runs if all the
parts of the reactions have values. It never writes the entries of a species that no reaction changes.
What the matrix held before does not matter. -/
theorem species_columns (species : List (Species Exact)) (reactions : List (Reaction ℕ Exact))
    (h : reactionRun ⟨species, reactions, false⟩ {} reactions.zipIdx = .ok (state, items)) :
    (∀ σ, (runItems σ items).isSome = (loopShares ⟨species, reactions, false⟩ none σ reactions.zipIdx).isSome) ∧
    (∀ σ τ, runItems σ items = some τ →
      ∃ shares, loopShares ⟨species, reactions, false⟩ none σ reactions.zipIdx = some shares ∧
        shares.map Share.reaction = reactions ∧
        ∀ k < species.length, (∃ r ∈ reactions, (r.change k).toReal ≠ 0) → ∀ j, j + 1 < species.length →
          τ (compositionPlace species.length k j) = (compositionTerms species k j shares).sum) ∧
    (∀ k < species.length, (∀ r ∈ reactions, (r.change k).toReal = 0) → ∀ j, j + 1 < species.length →
      ∀ item ∈ items, compositionPlace species.length k j ∉ item.writes) ∧
    ∀ σ σ', SameOutsideMatrix σ σ' → loopShares ⟨species, reactions, false⟩ none σ reactions.zipIdx =
        loopShares ⟨species, reactions, false⟩ none σ' reactions.zipIdx := by
  refine ⟨fun σ => isSome_eq_of_rel (loop_rel h σ), fun σ τ hτ => ?_, fun k hk hzero j hj item hitem hw => ?_,
    fun σ σ' hσ => loopShares_congr _ _ _ hσ.agree⟩
  · obtain ⟨shares, hshares, hreactions, hfilled⟩ := exists_of_rel (loop_rel h σ) hτ
    refine ⟨shares, hshares, hreactions, fun k hk hchange j hj => ?_⟩
    rw [hfilled.composition k hk j hj]
    exact total_of_ne_nil (compositionTerms_ne_nil hreactions hchange j)
  · obtain ⟨x, hx, hallowed⟩ := reactionRun_writes rfl rfl h item hitem _ hw
    obtain hapart | ⟨k', hz, hk', hplace⟩ := hallowed
    -- the entry is no work variable, so the reaction that writes it changes its species
    · exact hapart (compositionPlace_apart _ k j)
    · rw [Exact.isZero_false_iff] at hz
      obtain hplace | ⟨j', hplace⟩ := hplace
      · exact temperaturePlace_ne hk' k j hplace.symm
      · obtain ⟨rfl, -⟩ := compositionPlace_injective hk hk' hplace
        exact hz (hzero x.1 (fst_mem_of_mem_zipIdx hx))

/-- Both isomers lose and gain in the two reactions. -/
theorem isomer_columns : ∃ state items,
    reactionRun ⟨isomers, isomerizations, false⟩ {} isomerizations.zipIdx = .ok (state, items) ∧
    ∀ σ, ∃ τ shares, runItems σ items = some τ ∧
      loopShares ⟨isomers, isomerizations, false⟩ none σ isomerizations.zipIdx = some shares ∧
      ∀ k < 2, τ (compositionPlace 2 k 0) = (compositionTerms isomers k 0 shares).sum := by
  obtain ⟨state, items, hitems, -⟩ := reactionRun_ok (e := ⟨isomers, isomerizations, false⟩) (s := {}) rfl
    isomerizations_simple (by decide) isomers_weights
  obtain ⟨hsome, hcolumns, -⟩ := species_columns isomers isomerizations hitems
  refine ⟨state, items, hitems, fun σ => ?_⟩
  obtain ⟨d, d', hshares⟩ := isomerizations_shares σ
  obtain ⟨τ, hτ⟩ := Option.isSome_iff_exists.1 ((hsome σ).trans (by rw [hshares]; rfl))
  obtain ⟨shares, hloop, -, hsums⟩ := hcolumns σ τ hτ
  refine ⟨τ, shares, hτ, hloop, fun k hk => hsums k hk ?_ 0 (by decide)⟩
  refine ⟨isomerization 0 1, mem_cons_self, ?_⟩
  obtain ⟨hlost, hgained⟩ := isomerization_changes (a := 0) (b := 1) (by decide)
  obtain rfl | rfl : k = 0 ∨ k = 1 := by omega
  · rw [hlost]
    norm_num
  · rw [hgained]
    norm_num

/-! ## The temperature column loses what reactions add to the last species -/

lemma getLast_eq_total_iff (old : ℝ) (terms : List ℝ) :
    terms.getLast?.getD old = total old terms ↔ terms.dropLast.sum = 0 := by
  rcases eq_nil_or_concat terms with rfl | ⟨init, last, rfl⟩
  · simp [total]
  · rw [total_of_ne_nil (by simp)]
    simp

/-- After the reaction loop, an entry of the temperature column is the sum of what the reactions add
that change the species and have a temperature derivative; it is untouched if there is none. This
holds for all species but the last. Every reaction assigns the entry of the last species anew, so it
holds what the last of these reactions adds, and that is the sum only if all others add nothing. -/
theorem temperature_column (species : List (Species Exact)) (reactions : List (Reaction ℕ Exact))
    (h : reactionRun ⟨species, reactions, false⟩ {} reactions.zipIdx = .ok (state, items)) :
    (∀ σ, (runItems σ items).isSome = (loopShares ⟨species, reactions, false⟩ none σ reactions.zipIdx).isSome) ∧
    ∀ σ τ, runItems σ items = some τ →
      ∃ shares, loopShares ⟨species, reactions, false⟩ none σ reactions.zipIdx = some shares ∧
        shares.map Share.reaction = reactions ∧ (∀ k, k + 1 < species.length → τ (temperaturePlace species.length k) =
          total (σ (temperaturePlace species.length k)) (temperatureTerms species k shares)) ∧
        ∀ k, k + 1 = species.length → τ (temperaturePlace species.length k) =
            (temperatureTerms species k shares).getLast?.getD (σ (temperaturePlace species.length k)) ∧
          (τ (temperaturePlace species.length k) =
            total (σ (temperaturePlace species.length k)) (temperatureTerms species k shares) ↔
              (temperatureTerms species k shares).dropLast.sum = 0) := by
  refine ⟨fun σ => isSome_eq_of_rel (loop_rel h σ), fun σ τ hτ => ?_⟩
  obtain ⟨shares, hshares, hreactions, hfilled⟩ := exists_of_rel (loop_rel h σ) hτ
  refine ⟨shares, hshares, hreactions, hfilled.inner, fun k hk => ?_⟩
  have hlast := hfilled.last k hk
  exact ⟨hlast, hlast ▸ getLast_eq_total_iff _ _⟩

/-- The entry of isobutane holds what the way back adds, without what the reaction adds before. -/
theorem isomer_temperature : ∃ state items,
    reactionRun ⟨isomers, isomerizations, false⟩ {} isomerizations.zipIdx = .ok (state, items) ∧
    ∀ σ, ∃ τ, runItems σ items = some τ ∧
      τ (.cell "jac" (some 1)) = -(1 / σ.var "T" * σ.row "fwd_rates" 0 * σ.var "rho_inv") * 58
        + (1 / σ.var "T" * σ.row "fwd_rates" 1 * σ.var "rho_inv") * 58 ∧
      τ (.cell "J_nplusone" none) = -(1 / σ.var "T" * σ.row "fwd_rates" 1 * σ.var "rho_inv") * 58 := by
  obtain ⟨state, items, hitems, -⟩ := reactionRun_ok (e := ⟨isomers, isomerizations, false⟩) (s := {}) rfl
    isomerizations_simple (by decide) isomers_weights
  obtain ⟨hsome, hcolumn⟩ := temperature_column isomers isomerizations hitems
  refine ⟨state, items, hitems, fun σ => ?_⟩
  obtain ⟨d, d', hshares⟩ := isomerizations_shares σ
  obtain ⟨τ, hτ⟩ := Option.isSome_iff_exists.1 ((hsome σ).trans (by rw [hshares]; rfl))
  obtain ⟨shares, hloop, -, hinner, hlast⟩ := hcolumn σ τ hτ
  cases hshares.symm.trans hloop
  have hfirst := hinner 0 (by decide)
  have hsecond := (hlast 1 rfl).1
  obtain ⟨hlost, hgained⟩ := isomerization_changes (a := 0) (b := 1) (by decide)
  obtain ⟨hlost', hgained'⟩ := isomerization_changes (a := 1) (b := 0) (by decide)
  simp only [temperatureTerms, filterMap_cons, filterMap_nil, isomer_term (by decide : 0 < 2) hlost (by norm_num),
    isomer_term (by decide : 0 < 2) hgained' (by norm_num)] at hfirst
  simp only [temperatureTerms, filterMap_cons, filterMap_nil, isomer_term (by decide : 1 < 2) hgained (by norm_num),
    isomer_term (by decide : 1 < 2) hlost' (by norm_num)] at hsecond
  rw [total_of_ne_nil (cons_ne_nil _ _)] at hfirst
  refine ⟨τ, hτ, hfirst.trans ?_, hsecond.trans ?_⟩
  · simp only [sum_cons, sum_nil]
    ring
  · simp only [List.getLast?_cons_cons, List.getLast?_singleton, Option.getD_some]
    ring

end Columns

end

end Kinetics.Jacobian
