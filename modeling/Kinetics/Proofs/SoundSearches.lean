import Kinetics.Proofs.KeptOrders
/-!
# Searches that keep what they say

A climb goes on while it gains, without a bound on its moves (`Search.Climbs`). Each gain beats the
scores of all earlier orders, so there are at most as many gains as orders, and the climb ends
(`Search.exhaust_climbs`). What a search gives is an order of its items with the score of that order,
and the score is no worse than that of the first one (`search_sound`).
-/

open List

namespace Kinetics.Ordering

open Kinetics.Random

variable {t : Terrain} {patience : ℕ} {items : List ℕ} {s s' : Search Exact}

variable {gained : Bool}

/-- What a step does: the new order has a score, and the records follow it. -/
lemma Search.step_eq_ok (h : s.step t = .ok (s', gained)) : ∃ x, t.score s'.order = .ok x ∧
      (gained = true ∧ s.toBeat.toReal < x.toReal ∧ s'.toBeat = x ∨ gained = false ∧ s'.toBeat = s.toBeat) ∧
      (s.best.toReal < x.toReal ∧ s'.best = x ∧ s'.bestOrder = s'.order ∨
        s'.best = s.best ∧ s'.bestOrder = s.bestOrder) := by
  obtain ⟨laid, -, h⟩ := bind_eq_ok.1 h
  obtain ⟨m, -, h⟩ := bind_eq_ok.1 h
  obtain ⟨x, hx, h⟩ := bind_eq_ok.1 h
  cases pure_eq_ok.1 h
  refine ⟨x, hx, ?_, ?_⟩
  · cases hle : Arithmetic.le x s.toBeat with
    | true => exact .inr ⟨rfl, rfl⟩
    | false => exact .inl ⟨rfl, not_le.1 fun hxs => by simp [(Exact.le_iff x s.toBeat).2 hxs] at hle, rfl⟩
  · cases hlt : Arithmetic.lt s.best x with
    | true => exact .inl ⟨(Exact.lt_iff _ _).1 hlt, rfl, rfl⟩
    | false => exact .inr ⟨rfl, rfl⟩

/-! ## Climbs end -/

section Climbs

/-- Steps until `patience` of them in a row brought nothing, however many these are; `stale` did so already. -/
inductive Search.Climbs (t : Terrain) (patience : ℕ) : ℕ → Search Exact → Search Exact → Prop
  | stop {stale : ℕ} {s : Search Exact} (h : patience ≤ stale) : Climbs t patience stale s s
  | step {stale : ℕ} {s s₁ s₂ : Search Exact} {gained : Bool} (h : stale < patience)
    (hstep : s.step t = .ok (s₁, gained)) (hrest : Climbs t patience (if gained then 0 else stale + 1) s₁ s₂) :
    Climbs t patience stale s s₂

lemma orderCount_eq (n : ℕ) : orderCount n = n.factorial := by
  induction n with
  | zero => rfl
  | succ n ih =>
    unfold orderCount at ih ⊢
    rw [range_succ, foldl_append, ih, foldl_cons, foldl_nil, Nat.factorial_succ, Nat.mul_comm]

open Classical in
/-- The scores of orders of the items that are better than a given one. -/
noncomputable def betterScores (t : Terrain) (items : List ℕ) (least : ℝ) : Finset ℝ :=
  (items.permutations.toFinset.image fun order => ((t.score order).toOption.getD (Exact.count 0)).toReal).filter (least < ·)

lemma card_betterScores_le (t : Terrain) (items : List ℕ) (least : ℝ) :
    (betterScores t items least).card ≤ orderCount items.length := by
  rw [orderCount_eq, ← length_permutations]
  exact (Finset.card_filter_le _ _).trans (Finset.card_image_le.trans (toFinset_card_le _))

lemma card_betterScores_lt {order : List ℕ} {least : ℝ} {x : Exact} (ho : order.Perm items)
    (hx : t.score order = .ok x) (hlt : least < x.toReal) :
    (betterScores t items x.toReal).card < (betterScores t items least).card := by
  refine Finset.card_lt_card (Finset.ssubset_iff_subset_ne.2 ⟨?_, fun heq => ?_⟩)
  · exact Finset.monotone_filter_right _ fun y _ hy => hlt.trans hy
  · have hm : x.toReal ∈ betterScores t items least := by
      refine Finset.mem_filter.2 ⟨Finset.mem_image.2 ⟨order, ?_, by rw [hx]; rfl⟩, hlt⟩
      exact mem_toFinset.2 (mem_permutations.2 ho)
    rw [← heq] at hm
    exact lt_irrefl _ (Finset.mem_filter.1 hm).2

variable {size : ℕ} (hcount : t.count = items.countP (isUsed t.rows)) (h : Sought t.rows size items)
include hcount h

/-- Each gain allows for `patience` more steps, and there are no more gains than better scores. -/
lemma Search.climb_climbs {fuel stale : ℕ} (hs : s.Within items)
    (hf : (betterScores t items s.toBeat.toReal).card * patience + (patience - stale) < fuel) :
    ∃ s', s.climb t patience fuel stale = .ok s' ∧ s.Climbs t patience stale s' := by
  induction fuel generalizing stale s with
  | zero => exact absurd hf (Nat.not_lt_zero _)
  | succ fuel ih =>
    unfold Search.climb
    split
    · next hst => exact ⟨s, rfl, .stop hst⟩
    · next hst =>
      obtain ⟨⟨s₁, gained⟩, hsp, hw⟩ := Search.step_ok hcount h (exact_divides size) hs
      obtain ⟨x, hx, hg, -⟩ := Search.step_eq_ok hsp
      have hl : (betterScores t items s₁.toBeat.toReal).card * patience +
          (patience - if gained then 0 else stale + 1) < fuel := by
        obtain ⟨rfl, hlt, rfl⟩ | ⟨rfl, hsm⟩ := hg
        · have hfw := Nat.mul_le_mul_right patience (card_betterScores_lt hw.order hx hlt)
          rw [Nat.succ_mul] at hfw
          omega
        · simp only [hsm, Bool.false_eq_true, if_false]
          omega
      obtain ⟨s', hs', hc⟩ := ih hw hl
      exact ⟨s', by rw [hsp, ok_bind]; exact hs', .step (not_le.1 hst) hsp hc⟩

lemma Search.exhaust_climbs (hs : s.Within items) (patience : ℕ) :
    ∃ s', s.exhaust t patience = .ok s' ∧ s.Climbs t patience 0 s' := by
  refine Search.climb_climbs hcount h hs ?_
  have hg := Nat.mul_le_mul_right patience (card_betterScores_le t items s.toBeat.toReal)
  rw [hs.order.length_eq, Nat.succ_mul]
  omega

end Climbs

/-! ## The result -/

/-- The best order has the best score, which is no worse than the first one. -/
structure Search.Scored (t : Terrain) (items : List ℕ) (first : ℝ) (s : Search Exact) : Prop extends s.Within items where
  best : t.score s.bestOrder = .ok s.best
  least : first ≤ s.best.toReal

variable {first : ℝ}

lemma Search.Scored.step (hs : s.Scored t items first) (hw : s'.Within items)
    (h : s.step t = .ok (s', gained)) : s'.Scored t items first := by
  obtain ⟨x, hx, -, ⟨hlt, hb, ho⟩ | ⟨hb, ho⟩⟩ := Search.step_eq_ok h
  · exact ⟨hw, by rw [ho, hb, hx], hb ▸ hs.least.trans hlt.le⟩
  · exact ⟨hw, by rw [ho, hb, hs.best], hb ▸ hs.least⟩

section Sought
variable {size : ℕ} (hcount : t.count = items.countP (isUsed t.rows)) (h : Sought t.rows size items)
include hcount

lemma Search.Climbs.scored {stale : ℕ} (hc : s.Climbs t patience stale s') (hs : s.Scored t items first) :
    s'.Scored t items first := by
  induction hc with
  | stop => exact hs
  | step _ hst _ ih => exact ih (hs.step (Search.step_yields (count_le hcount) hs.toWithin _ hst).1 hst)

include h

lemma Search.rounds_scored {src : Source} (hsr : src.Varies items.length) (patience count : ℕ)
    (hs : s.Scored t items first) : Draws (·.Scored t items first) False (s.rounds src t patience count) := by
  induction count generalizing s with
  | zero => exact meets_pure hs
  | succ count ih =>
    obtain ⟨s₁, he, hc⟩ := Search.exhaust_climbs hcount h hs.toWithin patience
    have hs₁ := hc.scored hcount hs
    refine ends_lift_bind he ?_
    refine (Search.jump_draws hs₁.toWithin).bind (fun hn => hn ⟨h.length_ne_zero, hsr⟩) fun s₂ hs₂ => ih ?_
    obtain ⟨hw, hb, ho⟩ := hs₂
    exact ⟨hw, by rw [ho, hb, hs₁.best], hb ▸ hs₁.least⟩

end Sought

/-- Every climb over orders of the items ends where the unbounded climb ends. A search gives an order of its items
with its score, which is no worse than that of the first order, where the items without use stand at the end. -/
theorem search_sound {src : Source} (rows : List Row) (start : List ℕ) (hrows : ∃ width, ∀ r ∈ rows, r.length = width)
    (hstart : ∀ i ∈ start, i < rows.length) (hused : 2 ≤ start.countP (isUsed rows)) (hsrc : src.Varies start.length)
    (reach patience rounds : ℕ) :
    let t : Terrain := ⟨rows, reach, start.countP (isUsed rows)⟩
    (∀ s : Search Exact, s.Within start → ∃ s', s.Climbs t patience 0 s' ∧ s.exhaust t patience = .ok s') ∧
    ∃ first : Exact, t.score (usedFirst rows start) = .ok first ∧
      Returns (fun r : Exact × List ℕ => r.2.Perm start ∧ t.score r.2 = .ok r.1 ∧ first.toReal ≤ r.1.toReal)
        (search src rows start reach patience rounds) := by
  intro t
  obtain ⟨width, heven⟩ := hrows
  have ht : Sought t.rows (max width start.length) start :=
    ⟨⟨width, le_max_left _ _, heven⟩, hstart, le_max_right _ _, hused⟩
  have hperm := usedFirst_perm rows start
  obtain ⟨first, hfirst⟩ := Terrain.score_ok (t := t) rfl ht (exact_divides _) hperm
  refine ⟨fun s hs => ?_, first, hfirst, ?_⟩
  · obtain ⟨s', hs', hclimbs⟩ := Search.exhaust_climbs (t := t) rfl ht hs patience
    exact ⟨s', hclimbs, hs'⟩
  · obtain ⟨laid, hlaid, -⟩ := rowsOf_ok hstart
    unfold search
    refine Meets.returns (ends_lift_bind hlaid ?_)
    dsimp only
    rw [hperm.countP_eq]
    refine ends_lift_bind hfirst ?_
    refine (Search.rounds_scored (t := t) rfl ht hsrc patience rounds ⟨⟨hperm, hperm⟩, hfirst, le_rfl⟩).bind id fun s hs => ?_
    exact meets_pure ⟨hs.bestOrder, hs.best, hs.least⟩

/-- Two items that use something behind one that does not. -/
theorem search_sound_three_items : let rows := [[true, false], [false, false], [true, true]]
    let t : Terrain := ⟨rows, 1, 2⟩
    ∃ first : Exact, t.score [0, 2, 1] = .ok first ∧
      Returns (fun r : Exact × List ℕ => r.2.Perm [1, 0, 2] ∧ t.score r.2 = .ok r.1 ∧ first.toReal ≤ r.1.toReal)
        (search counting rows [1, 0, 2] 1 2 3) :=
  (search_sound _ [1, 0, 2] ⟨2, by decide⟩ (by decide) (by decide) (counting_varies (by decide)) 1 2 3).2

end Kinetics.Ordering
