import Kinetics.Proofs.Outcome
import Kinetics.Proofs.Exact
import Kinetics.Reactor.Inflow
/-!
# Inflows follow the flow rates

The running flows of the streams sum to zero after every inflow and stay above minus the sum of all
flow rates (`Balanced`), so none of them is far above zero either. A running flow is what the stream
should have delivered less what it has, and so the bounds say how often each stream is selected.
-/

open List

namespace Kinetics.Reactor

noncomputable section

variable {total : ℝ} {streams : List (Stream Exact)}

structure Balanced (total : ℝ) (streams : List (Stream Exact)) : Prop where
  flow_nonneg : ∀ s ∈ streams, 0 ≤ s.flow.toReal
  flows : (streams.map (·.flow.toReal)).sum = total
  total_pos : 0 < total
  balance : (streams.map (·.running.toReal)).sum = 0
  above : ∀ s ∈ streams, -total < s.running.toReal

lemma Balanced.running_le (h : Balanced total streams) {s : Stream Exact} (hs : s ∈ streams) :
    s.running.toReal ≤ (streams.length - 1) * total := by
  obtain ⟨before, after, rfl⟩ := append_of_mem hs
  have hothers : ∀ x ∈ (before ++ after).map (·.running.toReal), -total ≤ x := by
    intro x hx
    obtain ⟨t, ht, rfl⟩ := mem_map.1 hx
    exact (h.above t (by simp only [mem_append, mem_cons] at ht ⊢; tauto)).le
  have hsum := card_nsmul_le_sum _ _ hothers
  have hbalance := h.balance
  simp only [map_append, map_cons, sum_append, sum_cons, length_append, length_map, length_cons, nsmul_eq_mul,
    Nat.cast_add, Nat.cast_one] at hsum hbalance ⊢
  linarith

lemma largestAbove_eq_none {bound : Exact} {i : ℕ} {xs : List Exact} (h : largestAbove bound i xs = none) :
    ∀ x ∈ xs, x.toReal ≤ bound.toReal := by
  induction xs generalizing i with
  | nil => simp
  | cons x xs ih =>
    rw [largestAbove] at h
    split at h
    · cases h
    · next hx => exact forall_mem_cons.2 ⟨not_lt.1 (mt (Exact.lt_iff _ _).2 hx), ih h⟩

lemma largestAbove_eq_some {bound : Exact} {i j : ℕ} {xs : List Exact} (h : largestAbove bound i xs = some j) :
    ∃ k x, j = i + k ∧ xs[k]? = some x ∧ bound.toReal < x.toReal := by
  induction xs generalizing bound i j with
  | nil => cases h
  | cons x xs ih =>
    rw [largestAbove] at h
    split at h
    · next hx =>
      rw [Exact.lt_iff] at hx
      cases hr : largestAbove x (i + 1) xs with
      | none => exact ⟨0, x, by simpa [hr] using h.symm, rfl, hx⟩
      | some j' =>
        obtain ⟨k, y, rfl, hy, hxy⟩ := ih hr
        exact ⟨k + 1, y, by rw [hr] at h; simp only [Option.getD_some, Option.some.injEq] at h; omega, hy, hx.trans hxy⟩
    · obtain ⟨k, y, rfl, hy, hb⟩ := ih h
      exact ⟨k + 1, y, by omega, hy, hb⟩

/-- The streams after an inflow from the stream at `k`. -/
def advance (streams : List (Stream Exact)) (k : ℕ) : List (Stream Exact) :=
  (streams.map fun s => { s with running := s.running + s.flow }).modify k fun s =>
    { s with running := s.running - (streams.map (·.flow)).foldl (· + ·) (Arithmetic.tenths 0) }

lemma Balanced.toReal_flows (h : Balanced total streams) :
    ((streams.map (·.flow)).foldl (· + ·) (Arithmetic.tenths 0) : Exact).toReal = total := by
  rw [Exact.toReal_foldl_add, Exact.toReal_tenths, map_map, ← h.flows]
  simp [Function.comp_def]

lemma Balanced.advance_getElem? (h : Balanced total streams) (k : ℕ) {j : ℕ} {s : Stream Exact}
    (hj : streams[j]? = some s) : ∃ s', (advance streams k)[j]? = some s' ∧ s'.flow = s.flow ∧
      s'.running.toReal = s.running.toReal + s.flow.toReal - if k = j then total else 0 := by
  by_cases hk : k = j <;> simp [advance, hk, hj, h.toReal_flows]

lemma Balanced.advance (h : Balanced total streams) {k : ℕ} {s : Stream Exact} (hk : streams[k]? = some s)
    (hs : 0 < s.running.toReal + s.flow.toReal) : Balanced total (advance streams k) := by
  have hmem : ∀ s' ∈ Reactor.advance streams k, ∃ (j : ℕ) (s : Stream Exact), streams[j]? = some s ∧ s'.flow = s.flow ∧
      s'.running.toReal = s.running.toReal + s.flow.toReal - if k = j then total else 0 := by
    intro s' hs'
    obtain ⟨j, hj⟩ := mem_iff_getElem?.1 hs'
    have hlt : j < streams.length := by simpa [Reactor.advance] using (List.getElem?_eq_some_iff.1 hj).1
    obtain ⟨t, ht, hf, hr⟩ := h.advance_getElem? k (List.getElem?_eq_getElem hlt)
    obtain rfl : s' = t := Option.some.inj (hj.symm.trans ht)
    exact ⟨j, _, List.getElem?_eq_getElem hlt, hf, hr⟩
  constructor
  · intro s' hs'
    obtain ⟨j, t, ht, hf, -⟩ := hmem s' hs'
    rw [hf]
    exact h.flow_nonneg t (mem_of_getElem? ht)
  · have : (Reactor.advance streams k).map (·.flow.toReal) = streams.map (·.flow.toReal) := by
      refine ext_getElem? fun j => ?_
      simp only [Reactor.advance, getElem?_map, getElem?_modify]
      cases streams[j]? <;> simp
      split <;> rfl
    rw [this, h.flows]
  · exact h.total_pos
  · have : (Reactor.advance streams k).map (·.running.toReal) =
        (streams.map fun s => s.running.toReal + s.flow.toReal).modify k (· - total) := by
      refine ext_getElem? fun j => ?_
      simp only [Reactor.advance, getElem?_map, getElem?_modify]
      cases streams[j]? <;> simp
      split <;> simp [h.toReal_flows]
    have hlt : k < (streams.map fun s => s.running.toReal + s.flow.toReal).length := by
      simpa using (List.getElem?_eq_some_iff.1 hk).1
    rw [this, modify_eq_set, sum_set', dif_pos hlt, List.getElem?_eq_getElem hlt, Option.getD_some, sum_map_add,
      h.balance, h.flows]
    ring
  · intro s' hs'
    obtain ⟨j, t, ht, -, hr⟩ := hmem s' hs'
    rw [hr]
    split
    · next hkj =>
      obtain rfl : s = t := Option.some.inj (hk.symm.trans (hkj ▸ ht))
      linarith
    · linarith [h.above t (mem_of_getElem? ht), h.flow_nonneg t (mem_of_getElem? ht)]

/-- The running flows sum to `total` once they have grown, so one of them is positive. -/
lemma nextInflow_ok (h : Balanced total streams) : ∃ (k : ℕ) (s : Stream Exact), streams[k]? = some s ∧
    0 < s.running.toReal + s.flow.toReal ∧ nextInflow streams = .ok (k, advance streams k) := by
  have hsum : (streams.map fun s => s.running.toReal + s.flow.toReal).sum = total := by
    rw [sum_map_add, h.balance, h.flows, zero_add]
  have hrun : Arithmetic.lt ((streams.map (·.flow)).foldl (· + ·) (Arithmetic.tenths 0)) (Arithmetic.tenths 0 : Exact) =
      false := by
    simpa [Bool.eq_false_iff, h.toReal_flows] using h.total_pos.le
  unfold nextInflow advance
  simp only [hrun, Bool.false_eq_true, if_false, map_map]
  cases hl : largestAbove (Arithmetic.tenths 0) 0 (streams.map ((·.running) ∘ fun s => { s with running := s.running + s.flow })) with
  | none =>
    have hle := sum_le_card_nsmul (streams.map fun s => s.running.toReal + s.flow.toReal) 0
      (by simpa using largestAbove_eq_none hl)
    rw [hsum, smul_zero] at hle
    exact absurd h.total_pos hle.not_gt
  | some i =>
    obtain ⟨k, x, rfl, hk, hx⟩ := largestAbove_eq_some hl
    obtain ⟨s, hs, rfl⟩ : ∃ s, streams[k]? = some s ∧ s.running + s.flow = x := by simpa using hk
    exact ⟨k, s, hs, by simpa using hx, by rw [zero_add]⟩

/-- What a run of inflows leaves: the running flow of a stream has grown by its flow rate each time
and shrunk by `total` each time it was selected. -/
lemma schedule_ok (h : Balanced total streams) (k : ℕ) : ∃ rows, schedule streams k = .ok rows ∧ rows.length = k ∧
    (∀ row ∈ rows, row.1 < streams.length ∧ row.2.length = streams.length ∧ Balanced total row.2) ∧
    ∀ (j : ℕ) s, streams[j]? = some s → -total < s.running.toReal + k * s.flow.toReal - (rows.map (·.1)).count j * total ∧
      s.running.toReal + k * s.flow.toReal - (rows.map (·.1)).count j * total ≤ (streams.length - 1) * total := by
  induction k generalizing streams with
  | zero =>
    refine ⟨[], rfl, rfl, by simp, fun j s hs => ?_⟩
    simpa using ⟨h.above s (mem_of_getElem? hs), h.running_le (mem_of_getElem? hs)⟩
  | succ k ih =>
    obtain ⟨i, s₀, hi, hs₀, hnext⟩ := nextInflow_ok h
    have hb := h.advance hi hs₀
    have hl : (advance streams i).length = streams.length := by simp [advance]
    obtain ⟨rows, hrows, hlen, hall, hbounds⟩ := ih hb
    refine ⟨(i, advance streams i) :: rows, ?_, by simp [hlen], ?_, ?_⟩
    · rw [schedule, hnext, ok_bind, hrows]
      rfl
    · rw [hl] at hall
      exact forall_mem_cons.2 ⟨⟨(List.getElem?_eq_some_iff.1 hi).1, hl, hb⟩, hall⟩
    · intro j s hs
      obtain ⟨s', hs', hf, hr⟩ := h.advance_getElem? i hs
      have hj := hbounds j s' hs'
      rw [hf, hr, hl] at hj
      rw [map_cons, count_cons]
      push_cast
      by_cases hij : i = j
      · simp only [hij, if_true, beq_self_eq_true] at hj ⊢
        constructor <;> linarith
      · simp only [hij, if_false, beq_iff_eq] at hj ⊢
        constructor <;> linarith

/-- Streams are selected in proportion to their flow rates: over any number of inflows, each one more
often than its share less the number of the other streams, and less than once more than its share. -/
theorem inflows_follow_flows (hflow : ∀ s ∈ streams, 0 ≤ s.flow.toReal) (htotal : (streams.map (·.flow.toReal)).sum = total)
    (hpos : 0 < total) (hstart : ∀ s ∈ streams, s.running.toReal = 0) (k : ℕ) :
    ∃ rows, schedule streams k = .ok rows ∧ rows.length = k ∧
      (∀ row ∈ rows, row.1 < streams.length ∧ row.2.length = streams.length ∧ (row.2.map (·.running.toReal)).sum = 0 ∧
        ∀ s ∈ row.2, -total < s.running.toReal) ∧
      ∀ (i : ℕ) s, streams[i]? = some s →
        k * s.flow.toReal / total - (streams.length - 1) ≤ (rows.map (·.1)).count i ∧
        (rows.map (·.1)).count i < k * s.flow.toReal / total + 1 := by
  have hb : Balanced total streams := {
    flow_nonneg := hflow
    flows := htotal
    total_pos := hpos
    balance := sum_eq_zero (by simpa using hstart)
    above := fun s hs => by simpa [hstart s hs] using hpos }
  obtain ⟨rows, hrows, hlen, hall, hbounds⟩ := schedule_ok hb k
  refine ⟨rows, hrows, hlen, fun row hr => ⟨(hall row hr).1, (hall row hr).2.1, (hall row hr).2.2.balance,
    (hall row hr).2.2.above⟩, fun i s hs => ?_⟩
  have hi := hbounds i s hs
  rw [hstart s (mem_of_getElem? hs), zero_add] at hi
  constructor
  · rw [sub_le_iff_le_add, div_le_iff₀ hpos]
    linarith
  · rw [← sub_lt_iff_lt_add, lt_div_iff₀ hpos]
    linarith

/-- Two streams, of which the first delivers twice as much as the second. -/
def twoToOne : List (Stream Exact) := [.start (.count 2), .start (.count 1)]

theorem twoToOne_inflows : ∃ rows, schedule twoToOne 5 = .ok rows ∧
    ((rows.map (·.1)).count 0 = 3 ∨ (rows.map (·.1)).count 0 = 4) := by
  have htotal : (twoToOne.map (·.flow.toReal)).sum = 3 := by norm_num [twoToOne, Stream.start]
  obtain ⟨rows, hrows, -, -, hcount⟩ := inflows_follow_flows (by simp [twoToOne, Stream.start]) htotal (by norm_num)
    (by simp [twoToOne, Stream.start]) 5
  obtain ⟨hlow, hhigh⟩ := hcount 0 (.start (.count 2)) rfl
  norm_num [twoToOne, Stream.start] at hlow hhigh
  refine ⟨rows, hrows, ?_⟩
  have hl : 2 < (rows.map (·.1)).count 0 := by exact_mod_cast (by linarith : (2 : ℝ) < (rows.map (·.1)).count 0)
  have hh : (rows.map (·.1)).count 0 < 5 := by exact_mod_cast (by linarith : ((rows.map (·.1)).count 0 : ℝ) < 5)
  omega

end

end Kinetics.Reactor
