import Kinetics.Jacobian.SparseProduct
import Kinetics.Proofs.SpeciesMasks
import Kinetics.Proofs.ThermodynamicConsistency
/-!
# Products of the matrix with a vector

One function adds the shares of the entries row after row, the other one column after column and sets a row with its
first share. For any list of entries both leave the same sums (`productByRows_run`, `productByColumns_run`), so what the
product is depends on the list alone: `sparse_product`.
-/

open List

namespace Kinetics.Jacobian

open Code Emit

noncomputable section

variable {σ : Memory} {n : ℕ} {entries : List ℕ}

/-- Entry `x` of the matrix, stored by columns, times the entry of the vector for its column. -/
def share (σ : Memory) (n x : ℕ) : ℝ := σ.row "A" x * σ.row "Vm" (x / n)

/-- The sum of the shares of row `i` among some entries. -/
def rowSum (σ : Memory) (n : ℕ) (entries : List ℕ) (i : ℕ) : ℝ :=
  ((entries.filter (· % n = i)).map (share σ n)).sum

lemma productTerm_term {τ : Memory} (h : OnlyIn "w" σ τ) (n x : ℕ) : Term τ (productTerm n x) (share σ n x) := by
  rw [share, ← h.row (by decide), ← h.row (by decide)]
  exact (Factor.cell "A" x).term.mul (Factor.cell "Vm" (x / n)).term

lemma zero_value (τ : Memory) : (0 : Expr Exact).value τ = some 0 := by
  have h := (Factor.constant (σ := τ) (Decimal.whole 0)).value
  rwa [show Decimal.toReal (Decimal.whole 0) = 0 by simp [Decimal.toReal, Decimal.whole]] at h

/-- The sum as a row is set to it. -/
def writtenSum (terms : List (Expr Exact)) : Expr Exact := if terms.isEmpty then 0 else sumOf {} terms

lemma writtenSum_value {σ : Memory} {es : List (Expr Exact)} {vs : List ℝ} (h : List.Forall₂ (Term σ) es vs) :
    (writtenSum es).value σ = some vs.sum := by
  cases h with
  | nil => exact zero_value σ
  | cons he hs => exact sumOf_value _ (.cons he hs) (by simp)

/-- Row by row, every row is set to its sum. -/
lemma productByRows_run (σ : Memory) (n : ℕ) (entries : List ℕ) :
    ∃ τ, runSteps σ (productByRows n entries) = some τ ∧ ∀ i < n, τ.row "w" i = rowSum σ n entries i := by
  have he : ∀ i, ∀ τ, OnlyIn "w" σ τ → Expr.value τ (writtenSum ((entries.filter (· % n = i)).map (productTerm n))) =
      some (rowSum σ n entries i) := by
    intro i τ h
    refine writtenSum_value ?_
    rw [forall₂_map_left_iff, forall₂_map_right_iff, forall₂_same]
    exact fun x _ => productTerm_term h n x
  obtain ⟨τ, hτ, hs⟩ := stored_assigns "w" 2 (f := id) fun i (_ : i ∈ List.range n) => he i
  refine ⟨τ, ?_, fun i hi => hs.entry i (by simpa using hi)⟩
  rw [← hτ, productByRows]
  congr 1
  refine map_congr_left fun i _ => ?_
  cases (entries.filter (· % n = i)).map (productTerm (α := Exact) n) <;> rfl

/-- The assignments that add the shares of some entries; the first one of a row sets it. -/
def additions (n : ℕ) (xs : List ℕ) : List (Step Exact) := xs.zipIdx.map fun p =>
  .assign 1 (.cell "w" (p.1 % n : ℕ)) (if (xs.take p.2).any (· % n = p.1 % n) then .add else .set) (productTerm n p.1)

lemma additions_concat (n : ℕ) (xs : List ℕ) (x : ℕ) : additions n (xs ++ [x]) = additions n xs ++
    [.assign 1 (.cell "w" (x % n : ℕ)) (if xs.any (· % n = x % n) then .add else .set) (productTerm n x)] := by
  rw [additions, zipIdx_append, map_append, additions]
  congr 1
  · refine map_congr_left fun p hp => ?_
    rw [take_append_of_le_length (by simpa using (mem_zipIdx hp).2.1.le)]
  · simp

lemma additions_run (σ : Memory) (n : ℕ) (xs : List ℕ) : ∃ τ, runSteps σ (additions n xs) = some τ ∧ OnlyIn "w" σ τ ∧
    ∀ i, τ.row "w" i = if xs.any (· % n = i) then rowSum σ n xs i else σ.row "w" i := by
  -- an assignment depends on what stands before it, so entries are added at the end
  induction xs using reverseRecOn with
  | nil => exact ⟨σ, rfl, fun _ _ => rfl, by simp⟩
  | append_singleton xs x ih =>
    obtain ⟨τ, hτ, ho, hw⟩ := ih
    set form : Form := if xs.any (· % n = x % n) then .add else .set with hform
    refine ⟨τ.setRow "w" (x % n : ℕ) (form.update (τ.row "w" (x % n)) (share σ n x)), ?_,
      ho.trans (stored_update "w" τ (x % n) fun _ => _).onlyIn, fun i => ?_⟩
    · have ha : (Step.assign 1 (.cell "w" (x % n : ℕ)) form (productTerm n x)).run τ = _ :=
        run_assign 1 form rfl (productTerm_term ho n x).value
      rw [additions_concat, runSteps_append, hτ]
      exact congrArg (Option.bind · some) ha
    · rw [row_update_row, hw, hw]
      by_cases hi : i = x % n
      · subst hi
        rw [hform]
        cases hx : xs.any (· % n = x % n) with
        | false =>
          have hne : xs.filter (· % n = x % n) = [] := filter_eq_nil_iff.2 fun y hy => any_eq_false.1 hx y hy
          simp [rowSum, filter_append, hne, Form.update]
        | true => simp [rowSum, filter_append, Form.update]
      · simp [hi, rowSum, filter_append, Ne.symm hi]

/-- Members put together by their number below a bound. -/
lemma flatMap_filter_perm (f : ℕ → ℕ) (xs : List ℕ) (m : ℕ) :
    ((List.range m).flatMap fun i => xs.filter (f · = i)).Perm (xs.filter (f · < m)) := by
  induction m with
  | zero => simp
  | succ m ih =>
    rw [range_succ, flatMap_append]
    refine (ih.append_right _).trans ?_
    have hp := filter_append_perm (f · < m) (xs.filter (f · < m + 1))
    rw [filter_filter, filter_filter] at hp
    have hl : xs.filter (fun x => decide (f x < m) && decide (f x < m + 1)) = xs.filter (f · < m) :=
      filter_congr fun x _ => by grind
    have hm : xs.filter (fun x => !decide (f x < m) && decide (f x < m + 1)) = xs.filter (f · = m) :=
      filter_congr fun x _ => by grind
    rw [hl, hm] at hp
    simpa using hp

/-- Column by column, the rows end with the same sums. -/
lemma productByColumns_run (σ : Memory) (hb : ∀ x ∈ entries, x < n * n) :
    ∃ τ, runSteps σ (productByColumns n entries) = some τ ∧ ∀ i < n, τ.row "w" i = rowSum σ n entries i := by
  have hp : ((List.range n).flatMap fun i => entries.filter (· / n = i)).Perm entries := by
    have h := flatMap_filter_perm (· / n) entries n
    rwa [filter_eq_self.2 fun x hx => decide_eq_true (Nat.div_lt_of_lt_mul (hb x hx))] at h
  generalize hc : ((List.range n).flatMap fun i => entries.filter (· / n = i)) = byColumn at hp
  obtain ⟨τ, hτ, ho, hw⟩ := additions_run σ n byColumn
  obtain ⟨ρ, hρ, hz⟩ := stored_assigns (σ := τ) "w" 1 (f := id) (v := fun _ => 0)
    fun i (_ : i ∈ (List.range n).filter fun i => !byColumn.any (· % n = i)) τ _ => zero_value τ
  refine ⟨ρ, ?_, fun i hi => ?_⟩
  · rw [productByColumns, hc, runSteps_append]
    exact (congrArg (Option.bind · _) hτ).trans hρ
  · have hs : rowSum σ n byColumn i = rowSum σ n entries i := ((hp.filter _).map _).sum_eq
    rw [← hs]
    cases hx : byColumn.any (· % n = i) with
    | true => rw [hz.other_row (by simp [hx]), hw, hx, if_pos rfl]
    | false =>
      have hne : byColumn.filter (· % n = i) = [] := filter_eq_nil_iff.2 fun y hy => any_eq_false.1 hx y hy
      exact (hz.entry i (by simp [hi, hx])).trans (by rw [rowSum, hne]; rfl)

/-- The shares of all entries are the product of a row with the vector. -/
lemma rowSum_range (σ : Memory) {i : ℕ} (hi : i < n) (m : ℕ) :
    rowSum σ n (List.range (n * m)) i = ∑ j ∈ Finset.range m, σ.row "A" (i + n * j) * σ.row "Vm" j := by
  induction m with
  | zero => simp [rowSum]
  | succ m ih =>
    have hf : ((List.range n).map (n * m + ·)).filter (· % n = i) = [n * m + i] := by
      have hc : ∀ k ∈ List.range n, ((fun x => decide (x % n = i)) ∘ (n * m + ·)) k = decide (k = i) := by
        intro k hk
        rw [Function.comp_apply, Nat.mul_add_mod, Nat.mod_eq_of_lt (mem_range.1 hk)]
      rw [filter_map, filter_congr hc, filter_eq, count_eq_one_of_mem nodup_range (mem_range.2 hi)]
      rfl
    have hd : (i + n * m) / n = m := by
      rw [Nat.add_mul_div_left _ _ (by omega), Nat.div_eq_of_lt hi, zero_add]
    rw [Finset.sum_range_succ, ← ih, Nat.mul_succ, range_add, rowSum, filter_append, hf, map_append, sum_append, rowSum]
    simp [share, hd, add_comm (n * m)]

/-- The entries with a mark. -/
def markedEntries (n : ℕ) (written : List Bool) : List ℕ := (List.range (n * n)).filter (written[·]? = some true)

lemma markedEntries_replicate (n : ℕ) (b : Bool) :
    markedEntries n (replicate (n * n) b) = if b then List.range (n * n) else [] := by
  cases b
  · exact filter_eq_nil_iff.2 fun x _ => by simp [getElem?_replicate]
  · exact filter_eq_self.2 fun x hx => by simpa [getElem?_replicate] using hx

variable {t : Target} {written : List Bool}

lemma sparseProductFiles_ok (ht : t.language.isBraced = true) (he : productEntries n written = .ok entries) :
    ∃ header source after body, sparseProductFiles t n written = .ok [header, source] ∧
      header.parts = [.text ("#ifndef SPARSE_HEAD\n#define SPARSE_HEAD\n\n#define N_A " ++
        (toString entries.length ++ ("\n#include \"header" ++ after)))] ∧
      functionBody "sparse_multiplier" source = some body ∧
      ∀ σ, runItems σ body =
        runSteps σ (if t.onDevice then productByColumns n entries else productByRows n entries) := by
  obtain ⟨suffix, hs⟩ : ∃ suffix, t.language.headerSuffix = .ok suffix := by
    cases hl : t.language <;> rw [hl] at ht <;> first | exact ⟨_, rfl⟩ | cases ht
  simp only [sparseProductFiles, he, hs, ok_bind, pure_ok, String.append_assoc]
  exact ⟨_, _, _, _, rfl, rfl, rfl, fun σ => runItems_steps σ _⟩

/-- The emitted product. The mark of entry `n`, the second one of the first row, decides for all entries: the function
multiplies with the whole matrix or gives zero, in both languages. So it is the product over the marked entries, with
their number declared, exactly if all marks are equal; one variable has no such entry and no function. -/
theorem sparse_product (ht : t.language.isBraced = true) (hn : 0 < n) (hw : written.length = n * n) :
    (n = 1 → ∃ fault, sparseProductFiles (α := Exact) t n written = .error fault) ∧
    (1 < n → ∃ b, written[n]? = some b ∧ ∃ header source after body,
      let count := if b then n * n else 0
      let product := fun (σ : Memory) i => if b then ∑ j ∈ Finset.range n, σ.row "A" (i + n * j) * σ.row "Vm" j else 0
      sparseProductFiles t n written = .ok [header, source] ∧
      header.parts = [.text ("#ifndef SPARSE_HEAD\n#define SPARSE_HEAD\n\n#define N_A " ++
        (toString count ++ ("\n#include \"header" ++ after)))] ∧
      functionBody "sparse_multiplier" source = some body ∧
      (∀ σ, ∃ τ, runItems σ body = some τ ∧ ∀ i < n, τ.row "w" i = product σ i) ∧
      (count = written.count true ∧ (∀ σ, ∀ i < n, product σ i = rowSum σ n (markedEntries n written) i) ↔
        written = replicate (n * n) b)) := by
  refine ⟨?_, fun h1 => ?_⟩
  · rintro rfl
    have he : productEntries 1 written = .error .missingEntry := by simp [productEntries, entryAt, hw]
    exact ⟨_, by rw [sparseProductFiles, he]; rfl⟩
  · obtain ⟨b, hb⟩ : ∃ b, written[n]? = some b := ⟨_, getElem?_eq_getElem (by rw [hw]; nlinarith)⟩
    have he : productEntries n written = .ok (if b then List.range (n * n) else []) := by
      simp [productEntries, hn.ne', entryAt_eq_ok.2 hb, pure_ok]
    obtain ⟨header, source, after, body, hf, hh, hbd, hrun⟩ := sparseProductFiles_ok ht he
    have hr : ∀ σ, ∀ i < n, rowSum σ n (if b then List.range (n * n) else []) i =
        if b then ∑ j ∈ Finset.range n, σ.row "A" (i + n * j) * σ.row "Vm" j else 0 := by
      intro σ i hi
      cases b
      · rfl
      · exact rowSum_range σ hi n
    refine ⟨b, hb, header, source, after, body, hf, ?_, hbd, fun σ => ?_, ?_⟩
    · rw [hh]
      cases b <;> simp
    · rw [hrun]
      obtain ⟨τ, hτ, hv⟩ : ∃ τ, runSteps σ (if t.onDevice then _ else _) = some τ ∧
          ∀ i < n, τ.row "w" i = rowSum σ n (if b then List.range (n * n) else []) i := by
        split
        · exact productByColumns_run σ (by cases b <;> simp)
        · exact productByRows_run σ n _
      exact ⟨τ, hτ, fun i hi => (hv i hi).trans (hr σ i hi)⟩
    · constructor
      · rintro ⟨hc, -⟩
        rw [← hw, eq_replicate_length]
        cases b with
        | true => exact fun x hx => (count_eq_length.1 (hc.symm.trans hw.symm) x hx).symm
        | false => exact fun x hx => Bool.eq_false_iff.2 fun h => (count_eq_zero.1 hc.symm) (h ▸ hx)
      · rintro rfl
        refine ⟨by cases b <;> simp [count_replicate], fun σ i hi => ?_⟩
        rw [markedEntries_replicate]
        exact (hr σ i hi).symm

/-- With the marks of a diagonal matrix of two rows, the product is zero. -/
theorem diagonal_product : (∃ header source body τ,
      sparseProductFiles ⟨.c, false, none⟩ 2 [true, false, false, true] = .ok [header, source] ∧
      functionBody "sparse_multiplier" source = some body ∧ runItems (fun _ => 1) body = some τ ∧ τ.row "w" 0 = 0) ∧
    rowSum (fun _ => 1) 2 (markedEntries 2 [true, false, false, true]) 0 = 1 := by
  obtain ⟨b, hb, header, source, -, body, hf, -, hbd, hrun, -⟩ :=
    (sparse_product (t := ⟨.c, false, none⟩) rfl two_pos (show [true, false, false, true].length = 2 * 2 from rfl)).2
      one_lt_two
  cases hb
  obtain ⟨τ, hτ, hw⟩ := hrun fun _ => 1
  have hm : markedEntries 2 [true, false, false, true] = [0, 3] := by decide
  exact ⟨⟨header, source, body, τ, hf, hbd, hτ, hw 0 two_pos⟩, by rw [hm]; simp [rowSum, share]⟩

end

end Kinetics.Jacobian
