import Kinetics.Proofs.SpeciesMasks
/-!
# Orders that a search finds

A search for an order that suits the cache starts with an order, takes items out and puts them back
elsewhere, and exchanges items at random. Whatever the random source gives, what it finds is the same
items in another order. It moves items to the places of others, so two items have to take part, and it
draws again while the random source gives the same number. With two items that use something, rows of one
length and a source that varies it gives an order (`search_draws`).
-/

open List

variable {n : ℕ}

namespace Kinetics.Random

variable {β : Type}

/-- What is known of draws from a source: a result has a property, and a fault shows something. -/
abbrev Draws (P : β → Prop) (fault : Prop) (x : Chance β) : Prop := Meets (fun _ => True) P fault x

lemma exchange_perm (xs : List β) (i j : ℕ) : (exchange xs i j).Perm xs := by
  unfold exchange
  split
  · next x y hx hy =>
    obtain ⟨hi, rfl⟩ := List.getElem?_eq_some_iff.1 hx
    obtain ⟨hj, rfl⟩ := List.getElem?_eq_some_iff.1 hy
    exact set_set_perm hi hj
  · exact .refl _

namespace Source

variable (src : Source)

/-- A source never gives the same number below `n` forever. -/
def Varies (n : ℕ) : Prop := ∀ s avoided, ∃ i, src.value (src.step^[i + 1] s) % n ≠ avoided

lemma draw_draws : Draws (fun _ => True) False src.draw := by
  intro s _
  constructor
  · rintro x s' ⟨⟩
    exact ⟨trivial, trivial⟩
  · rintro e s' ⟨⟩

lemma below_draws (n : ℕ) : Draws (· < n) (n = 0) (src.below n) := by
  refine src.draw_draws.bind False.elim fun x _ => ?_
  split
  · next hn => exact meets_throw _ hn
  · next hn => exact meets_pure (Nat.mod_lt x (Nat.pos_of_ne_zero hn))

lemma several_draws (low high : ℤ) (count : ℕ) : Draws (fun xs => low < high → ∀ i < count, low ≤ xs.getD i 0)
    (high = low) (src.several low high count) := by
  have hb : Draws (fun x => True ∧ (low < high → low ≤ x)) (high = low) (src.between low high) := by
    refine src.draw_draws.bind False.elim fun x _ => ?_
    split
    · next h => exact meets_throw _ h
    · refine meets_pure ⟨trivial, fun h => ?_⟩
      have := Int.fmod_nonneg (Int.natCast_nonneg x) (sub_nonneg.2 h.le)
      omega
  refine (meets_mapM (Q := fun _ => True) fun i (_ : i ∈ List.range count) => hb).imp ?_ id
  rintro xs ⟨-, hl, ha⟩ h i hi
  rw [length_range] at hl
  rw [getD_eq_getElem _ _ (hl ▸ hi)]
  exact ha _ (getElem_mem _) h

lemma runFrom_belowExcept (n avoided s : ℕ) : runFrom (src.belowExcept n avoided) s =
    (src.other n avoided s).elim (.error .unacceptable, s) fun r => (.ok r.1, r.2) := by
  have hg : runFrom (get : Chance ℕ) s = (.ok s, s) := rfl
  unfold belowExcept
  rw [runFrom_bind_of_ok hg]
  cases src.other n avoided s <;> rfl

lemma belowExcept_draws (hn : n ≠ 0) (avoided : ℕ) : Draws (· < n) (¬src.Varies n) (src.belowExcept n avoided) := by
  have ho : ∀ s r, src.other n avoided s = some r → r.1 < n := by
    refine other.partial_correctness src n avoided (fun _ r => r.1 < n) fun rest hrs s r hr => ?_
    dsimp only at hr
    split at hr
    · exact hrs _ r hr
    · cases hr
      exact Nat.mod_lt _ (Nat.pos_of_ne_zero hn)
  have hf : ∀ (i s : ℕ), src.value (src.step^[i + 1] s) % n ≠ avoided → ∃ r, src.other n avoided s = some r := by
    intro i
    induction i with
    | zero => exact fun s ho => ⟨_, by rw [other]; exact if_neg ho⟩
    | succ i ih =>
      intro s ho
      rw [other]
      split
      · exact ih (src.step s) ho
      · exact ⟨_, rfl⟩
  intro s _
  rw [runFrom_belowExcept]
  cases hr : src.other n avoided s with
  | none =>
    refine ⟨by rintro x s' ⟨⟩, fun e s' _ => ⟨trivial, fun hv => ?_⟩⟩
    obtain ⟨i, hi⟩ := hv s avoided
    obtain ⟨r, hr'⟩ := hf i s hi
    cases hr.symm.trans hr'
  | some r =>
    refine ⟨?_, by rintro e s' ⟨⟩⟩
    rintro x s' ⟨⟩
    exact ⟨trivial, ho s r hr⟩

lemma shuffle_draws (i : ℕ) (xs : List β) : Draws (·.Perm xs) False (src.shuffle i xs) := by
  induction i generalizing xs with
  | zero => exact meets_pure (.refl _)
  | succ i ih =>
    refine (src.below_draws _).bind (by omega) fun j _ => ?_
    exact (ih _).imp (fun ys h => h.trans (exchange_perm xs (i + 1) j)) id

lemma permutation_draws (n : ℕ) : Draws (·.Perm (List.range n)) False (src.permutation n) := src.shuffle_draws _ _

end Source

end Kinetics.Random

namespace Kinetics.Ordering

open Kinetics.Random

variable {α : Type} [Arithmetic α]

/-! ## Moves -/

lemma move_perm {β : Type} {xs : List β} {source target : ℕ} (h : target < xs.length) :
    (move xs source target).Perm xs := by
  unfold move
  split
  · next x hx =>
    obtain ⟨hi, rfl⟩ := List.getElem?_eq_some_iff.1 hx
    have ht : target ≤ (xs.eraseIdx source).length := by
      rw [length_eraseIdx_of_lt hi]
      omega
    exact (perm_insertIdx _ _ ht).trans (getElem_cons_eraseIdx_perm hi)
  · exact .refl _

lemma greatest_mem {β : Type} {xs : List (α × β)} {entry : α × β} (h : greatest xs = some entry) : entry ∈ xs := by
  refine List.foldlRecOn (motive := fun found => ∀ e, found = some e → e ∈ xs) xs _ ?_ ?_ entry h
  · intro e he
    cases he
  · intro found hf e he e' h'
    split at h'
    · cases h'
      exact he
    · split at h'
      · cases h'
        exact he
      · exact hf e' h'

lemma greatest_of_ne_nil {β : Type} {xs : List (α × β)} (h : xs ≠ []) : ∃ entry, greatest xs = some entry := by
  cases xs with
  | nil => exact absurd rfl h
  | cons x xs =>
    unfold greatest
    refine List.foldlRecOn (motive := fun found : Option (α × β) => ∃ entry, found = some entry) xs _ ⟨x, rfl⟩ ?_
    rintro _ ⟨⟨most, b⟩, rfl⟩ entry _
    dsimp only
    split
    · exact ⟨_, rfl⟩
    · exact ⟨_, rfl⟩

lemma leastPositions_spec {xs : List α} (h : xs ≠ []) :
    leastPositions xs ≠ [] ∧ ∀ i ∈ leastPositions xs, i < xs.length := by
  cases xs with
  | nil => exact absurd rfl h
  | cons x xs =>
    have hf : ∀ found : Option (α × List ℕ), (∃ p, found = some p ∧ p.2 ≠ [] ∧ ∀ i ∈ p.2, i < (x :: xs).length) →
        found.elim [] (·.2) ≠ [] ∧ ∀ i ∈ found.elim [] (·.2), i < (x :: xs).length := by
      rintro _ ⟨p, rfl, hp⟩
      exact hp
    unfold leastPositions
    rw [zipIdx_cons, foldl_cons]
    refine hf _ (List.foldlRecOn (motive := fun found : Option (α × List ℕ) =>
      ∃ p, found = some p ∧ p.2 ≠ [] ∧ ∀ i ∈ p.2, i < (x :: xs).length) _ _ ⟨(x, [0]), rfl, by simp, by simp⟩ ?_)
    rintro _ ⟨⟨least, is⟩, rfl, hne, his⟩ ⟨y, j⟩ hy
    have hj : j < (x :: xs).length := by
      have := snd_lt_of_mem_zipIdx hy
      simpa [Nat.add_comm] using this
    dsimp only
    split
    · exact ⟨_, rfl, by simp, by simpa using hj⟩
    split
    · refine ⟨_, rfl, by simp, fun i hi => ?_⟩
      rcases mem_append.1 hi with hi | hi
      · exact his i hi
      · rwa [mem_singleton.1 hi]
    · exact ⟨_, rfl, hne, his⟩

lemma bestPlace_yields (laid : List Row) (reach count item : ℕ) :
    Yields (fun best : Option (α × ℕ) => ∀ place, best = some place → place.2 < count ∧ place.2 ≠ item)
      (bestPlace laid reach count item) := by
  refine Yields.bind (Q := fun places : List (α × ℕ) => ∀ place ∈ places, place.2 < count ∧ place.2 ≠ item) ?_ ?_
  · apply yields_mapM
    intro i hi
    refine yields_bind fun x => yields_pure.2 ?_
    rw [mem_filter, mem_range, bne_iff_ne] at hi
    exact hi
  · intro places hp
    exact yields_pure.2 fun place h => hp place (greatest_mem h)

/-- A move takes one of the items that take part to the place of another one. -/
lemma nextMove_yields (laid : List Row) (reach count : ℕ) :
    Yields (fun move => move.1 < count ∧ move.2 < count ∧ move.2 ≠ move.1) (nextMove (α := α) laid reach count) := by
  refine Yields.bind (Q := fun fits : List α => fits.length = count) ?_ fun fits hf => ?_
  · intro fits h
    rw [← (mapM_eq_ok.1 h).length_eq, length_range]
  refine Yields.bind (Q := fun moves : List (α × ℕ × ℕ) =>
    ∀ m ∈ moves, m.2.1 < count ∧ m.2.2 < count ∧ m.2.2 ≠ m.2.1) ?_ ?_
  · apply yields_mapM
    intro item hi
    have hlt : item < count := by
      rcases eq_or_ne fits [] with rfl | hne
      · cases hi
      · exact hf ▸ (leastPositions_spec hne).2 item hi
    refine (bestPlace_yields laid reach count item).bind fun best hb => ?_
    split
    · exact yields_pure.2 ⟨hlt, hb _ rfl⟩
    · exact yields_error _
  · intro moves hm
    split
    · next h => exact yields_pure.2 (hm _ (greatest_mem h))
    · exact yields_error _

/-! ## Fits and scores -/

/-- Whole numbers of the size of the mechanism can be divided. -/
def Divides (α : Type) [Arithmetic α] (size : ℕ) : Prop := ∀ (a : ℤ) (d : ℕ), a.natAbs ≤ size → d ≠ 0 → d ≤ size →
    ∃ x : α, Arithmetic.div (Arithmetic.ofInt a) (Arithmetic.ofInt (d : ℤ)) = .ok x

/-- At least so many rows as items take part, all of one length, and no more than a size in both directions. -/
structure Laid (size width : ℕ) (laid : List Row) (count : ℕ) : Prop where
  even : ∀ r ∈ laid, r.length = width
  width_le : width ≤ size
  count_le : count ≤ laid.length
  count_le_size : count ≤ size

lemma affinity_ok {item neighbour : Row} (h : item.length = neighbour.length) :
    ∃ a : ℤ, item.affinity neighbour = .ok a ∧ a.natAbs ≤ item.length := by
  unfold Row.affinity
  rw [if_neg (not_not.2 h)]
  refine ⟨_, rfl, ?_⟩
  have hc : ∀ (p q : Bool × Bool → Bool) (l : List (Bool × Bool)),
      ((l.countP p : ℤ) - l.countP q).natAbs ≤ l.length := by
    intro p q l
    have hp := countP_le_length (p := p) (l := l)
    have hq := countP_le_length (p := q) (l := l)
    omega
  refine (hc _ _ _).trans ?_
  rw [length_zip]
  exact min_le_left _ _

variable {i : ℕ}

section Laid
variable {size width count : ℕ} {laid : List Row}

lemma Laid.getD_length (hlaid : Laid size width laid count) (hi : i < count) : (laid.getD i []).length = width := by
  have hlt : i < laid.length := hi.trans_le hlaid.count_le
  rw [getD_eq_getElem _ _ hlt]
  exact hlaid.even _ (getElem_mem hlt)

variable (hdiv : Divides α size) (hlaid : Laid size width laid count) (reach : ℕ)
include hdiv hlaid

lemma fit_ok {item : Row} (hit : item.length = width) (hi : i < count) :
    ∃ x : α, fit laid reach count item i = .ok x := by
  have hs : ∀ j ∈ neighbourhood reach count i, ∀ total : α, True → ∃ x : α, (do
      let affinity ← item.affinity (laid.getD j [])
      let distance : Int := (i : Int) - (j : Int)
      return total + (← Arithmetic.div (Arithmetic.ofInt affinity) (Arithmetic.ofInt distance.natAbs))) = .ok x ∧
        True := by
    intro j hj total _
    simp only [neighbourhood, mem_filter, mem_range, Bool.and_eq_true, bne_iff_ne] at hj
    obtain ⟨a, ha, hb⟩ := affinity_ok (hit.trans (hlaid.getD_length hj.1).symm)
    have hcount := hlaid.count_le_size
    have hw := hlaid.width_le
    obtain ⟨q, hq⟩ := hdiv a ((i : ℤ) - j).natAbs (by omega) (by omega) (by omega)
    refine ⟨total + q, ?_, trivial⟩
    simp only [ha, ok_bind, hq]
    rfl
  obtain ⟨x, hx, -⟩ := foldlM_invariant (neighbourhood reach count i) hs trivial
  exact ⟨x, hx⟩

lemma ownFits_ok : ∃ fits : List α, ownFits laid reach count = .ok fits ∧ fits.length = count := by
  obtain ⟨fits, hf⟩ := mapM_ok fun i hi => fit_ok hdiv hlaid reach (hlaid.getD_length (mem_range.1 hi)) (mem_range.1 hi)
  refine ⟨fits, hf, ?_⟩
  rw [← (mapM_eq_ok.1 hf).length_eq, length_range]

lemma score_ok : ∃ x : α, score laid reach count = .ok x := by
  obtain ⟨fits, hf, -⟩ := ownFits_ok hdiv hlaid reach
  exact ⟨_, by rw [score, hf]; rfl⟩

lemma bestPlace_ok (hcount : 2 ≤ count) {item : ℕ} (hit : item < count) :
    ∃ place : α × ℕ, bestPlace laid reach count item = .ok (some place) := by
  have hf : ∀ i ∈ (List.range count).filter (· != item), ∃ y : α × ℕ,
      (do return (← fit laid reach count (laid.getD item []) i, i)) = Except.ok y := by
    intro i hi
    obtain ⟨x, hx⟩ := fit_ok hdiv hlaid reach (hlaid.getD_length hit) (mem_range.1 (mem_filter.1 hi).1)
    exact ⟨(x, i), by rw [hx]; rfl⟩
  -- one of the first two places is not the item's own
  have ho : (if item = 0 then 1 else 0) ∈ (List.range count).filter (· != item) := by
    rw [mem_filter, mem_range, bne_iff_ne]
    split <;> omega
  obtain ⟨places, hp, hne⟩ := mapM_ok_ne_nil (ne_nil_of_mem ho) hf
  obtain ⟨place, hpl⟩ := greatest_of_ne_nil hne
  exact ⟨place, by rw [bestPlace, hp, ok_bind, hpl]; rfl⟩

lemma nextMove_ok (hcount : 2 ≤ count) : ∃ m, nextMove (α := α) laid reach count = .ok m := by
  obtain ⟨fits, hf, hl⟩ := ownFits_ok hdiv hlaid reach
  have hfits_ne : fits ≠ [] := by
    rintro rfl
    rw [length_nil] at hl
    omega
  obtain ⟨hs, hb⟩ := leastPositions_spec hfits_ne
  unfold nextMove
  rw [hf, ok_bind]
  refine exists_bind_ok_of (mapM_ok_ne_nil hs fun item hi => ?_) fun moves hmv => ?_
  · obtain ⟨place, hp⟩ := bestPlace_ok hdiv hlaid reach hcount (hl ▸ hb item hi)
    exact ⟨_, by rw [hp]; rfl⟩
  · obtain ⟨m, hm⟩ := greatest_of_ne_nil hmv
    rw [hm]
    exact ⟨_, rfl⟩

end Laid

/-! ## Searches -/

/-- Both orders of a search have the items that it started with. -/
structure Search.Within (start : List ℕ) (s : Search α) : Prop where
  order : s.order.Perm start
  bestOrder : s.bestOrder.Perm start

section Within
variable {start : List ℕ} {t : Terrain} (hcount : t.count ≤ start.length)
include hcount

variable {s : Search α}

/-- A step moves an item to the place of another one. -/
lemma Search.step_yields (hs : s.Within start) : Yields (fun r => r.1.Within start ∧ 2 ≤ t.count) (s.step t) := by
  refine yields_bind fun laid => (nextMove_yields laid t.reach t.count).bind fun m hm => ?_
  have hmv : (move s.order m.1 m.2).Perm start := by
    apply List.Perm.trans (move_perm _) hs.order
    rw [hs.order.length_eq]
    exact hm.2.1.trans_le hcount
  refine yields_bind fun score => yields_pure.2 ⟨⟨hmv, ?_⟩, by omega⟩
  dsimp only
  split
  · exact hmv
  · exact hs.bestOrder

lemma Search.climb_yields (patience fuel stale : ℕ) (hs : s.Within start) :
    Yields (fun s' => s'.Within start ∧ (fuel ≠ 0 → stale < patience → 2 ≤ t.count)) (s.climb t patience fuel stale) := by
  induction fuel generalizing stale s with
  | zero => exact yields_ok.2 ⟨hs, fun h => absurd rfl h⟩
  | succ fuel ih =>
    unfold Search.climb
    split
    · next h => exact yields_ok.2 ⟨hs, fun _ hlt => absurd h hlt.not_ge⟩
    · refine (step_yields hcount hs).bind fun r hr => (ih _ hr.1).imp fun s' hs' => ?_
      exact ⟨hs'.1, fun _ _ => hr.2⟩

end Within

variable {order : List ℕ}

lemma rowsOf_ok {rows : List Row} (h : ∀ i ∈ order, i < rows.length) :
    ∃ laid, rowsOf rows order = .ok laid ∧ laid.length = order.length ∧ ∀ r ∈ laid, r ∈ rows := by
  have hm : Yields (fun laid => ∀ r ∈ laid, r ∈ rows) (rowsOf rows order) := by
    apply yields_mapM
    intro i _
    split
    · next hr => exact yields_ok.2 (mem_of_getElem? hr)
    · exact yields_error _
  obtain ⟨laid, hlaid⟩ : ∃ laid, rowsOf rows order = .ok laid := by
    apply mapM_ok
    intro i hi
    rw [List.getElem?_eq_getElem (h i hi)]
    exact ⟨_, rfl⟩
  exact ⟨laid, hlaid, (mapM_eq_ok.1 hlaid).length_eq.symm, hm laid hlaid⟩

/-- What a search for an order of some items needs: rows of one length, and two items that use something. -/
structure Sought (rows : List Row) (size : ℕ) (items : List ℕ) : Prop where
  even : ∃ width ≤ size, ∀ r ∈ rows, r.length = width
  below : ∀ i ∈ items, i < rows.length
  items_le : items.length ≤ size
  used : 2 ≤ items.countP (isUsed rows)

lemma Sought.of_perm {rows : List Row} {size : ℕ} {items items' : List ℕ} (h : Sought rows size items)
    (hp : items'.Perm items) : Sought rows size items' where
  even := h.even
  below i hi := h.below i (hp.mem_iff.1 hi)
  items_le := hp.length_eq ▸ h.items_le
  used := hp.countP_eq (isUsed rows) ▸ h.used

section Sought
variable {t : Terrain} {size : ℕ} {items : List ℕ} (hcount : t.count = items.countP (isUsed t.rows))
include hcount

lemma count_le : t.count ≤ items.length := hcount ▸ countP_le_length

variable (h : Sought t.rows size items)
include h

lemma laid_of_perm (hp : order.Perm items) :
    ∃ laid width, rowsOf t.rows order = .ok laid ∧ Laid size width laid t.count := by
  obtain ⟨width, hw, he⟩ := h.even
  obtain ⟨laid, hlaid, hl, hm⟩ := rowsOf_ok (h.of_perm hp).below
  have hle := count_le hcount
  refine ⟨laid, width, hlaid, fun r hr => he r (hm r hr), hw, ?_, hle.trans h.items_le⟩
  rwa [hl, hp.length_eq]

variable (hdiv : Divides α size)
include hdiv

lemma Terrain.score_ok (hp : order.Perm items) : ∃ x : α, t.score order = .ok x := by
  obtain ⟨laid, width, hr, hlaid⟩ := laid_of_perm hcount h hp
  obtain ⟨x, hx⟩ := Ordering.score_ok hdiv hlaid t.reach
  exact ⟨x, by rw [Terrain.score, hr, ok_bind, hx]⟩

variable {s : Search α}

lemma Search.step_ok (hs : s.Within items) : ∃ r, s.step t = .ok r ∧ r.1.Within items := by
  obtain ⟨laid, width, hrw, hlaid⟩ := laid_of_perm hcount h hs.order
  obtain ⟨m, hm⟩ := nextMove_ok hdiv hlaid t.reach (hcount ▸ h.used)
  obtain ⟨-, hp, -⟩ := nextMove_yields laid t.reach t.count m hm
  have hmv : (move s.order m.1 m.2).Perm items := by
    apply List.Perm.trans (move_perm _) hs.order
    rw [hs.order.length_eq]
    exact hp.trans_le (count_le hcount)
  obtain ⟨x, hx⟩ := Terrain.score_ok hcount h hdiv hmv
  obtain ⟨r, hr⟩ : ∃ r, s.step t = .ok r := by
    unfold Search.step
    simp only [hrw, ok_bind, hm, hx]
    exact ⟨_, rfl⟩
  exact ⟨r, hr, (Search.step_yields (count_le hcount) hs r hr).1⟩

lemma Search.climb_ok (patience fuel stale : ℕ) (hs : s.Within items) :
    ∃ s', s.climb t patience fuel stale = .ok s' ∧ s'.Within items := by
  induction fuel generalizing stale s with
  | zero => exact ⟨s, rfl, hs⟩
  | succ fuel ih =>
    unfold Search.climb
    split
    · exact ⟨s, rfl, hs⟩
    · obtain ⟨r, hr, hw⟩ := Search.step_ok hcount h hdiv hs
      rw [hr, ok_bind]
      exact ih _ hw

end Sought

section Found
variable {src : Source}

variable (α) in
/-- What a search needs: items that can be sought, a source that varies, and quotients. -/
structure Ready (src : Source) (rows : List Row) (size : ℕ) (items : List ℕ) : Prop where
  sought : Sought rows size items
  varies : src.Varies items.length
  divides : Divides α size

/-- What a search finds is an order of its items. If it takes steps, two of them use something. -/
structure Found (rows : List Row) (items : List ℕ) (steps : Prop) (order : List ℕ) : Prop where
  perm : order.Perm items
  two : steps → 2 ≤ items.countP (isUsed rows)

variable {t : Terrain} {s : Search α} {items : List ℕ}

omit [Arithmetic α] in
lemma Search.jump_draws (hs : s.Within items) : Draws
    (fun s' => s'.Within items ∧ s'.best = s.best ∧ s'.bestOrder = s.bestOrder)
    (¬(items.length ≠ 0 ∧ src.Varies items.length)) (s.jump src) := by
  unfold Search.jump
  rw [hs.order.length_eq]
  refine (src.below_draws _).bind (fun h hn => hn.1 h) fun item hi => ?_
  refine (src.belowExcept_draws (Nat.ne_zero_of_lt hi) item).bind (fun h hn => h hn.2) fun place hp => ?_
  refine meets_pure ⟨⟨?_, hs.bestOrder⟩, rfl, rfl⟩
  exact (move_perm (by rwa [hs.order.length_eq])).trans hs.order

lemma Sought.length_ne_zero {rows : List Row} {size : ℕ} (h : Sought rows size items) : items.length ≠ 0 := by
  have := h.used.trans countP_le_length
  omega

lemma Search.rounds_draws (hcount : t.count = items.countP (isUsed t.rows)) (hs : s.Within items)
    (size patience count : ℕ) :
    Draws (fun s' => s'.Within items ∧ (patience ≠ 0 ∧ count ≠ 0 → 2 ≤ t.count)) (¬Ready α src t.rows size items)
      (s.rounds src t patience count) := by
  induction count generalizing s with
  | zero => exact meets_pure ⟨hs, fun h => absurd rfl h.2⟩
  | succ count ih =>
    have hc : Ready α src t.rows size items → ∃ s', s.exhaust t patience = .ok s' := fun h => by
      obtain ⟨s', hs', -⟩ := Search.climb_ok hcount h.sought h.divides patience _ 0 hs
      exact ⟨s', hs'⟩
    refine (meets_lift hc).bind id fun s₁ hs₁ => ?_
    obtain ⟨hw, ht⟩ := climb_yields (count_le hcount) patience _ 0 hs s₁ hs₁
    refine (Search.jump_draws hw).bind (mt fun h => ⟨h.sought.length_ne_zero, h.varies⟩) fun s₂ hs₂ => ?_
    exact (ih hs₂.1).imp (fun s' hs' => ⟨hs'.1, fun hp => ht (Nat.succ_ne_zero _) (Nat.pos_of_ne_zero hp.1)⟩) id

lemma usedFirst_perm (rows : List Row) (order : List ℕ) : (usedFirst rows order).Perm order := filter_append_perm _ _

lemma search_draws (rows : List Row) (size : ℕ) (start : List ℕ) (reach patience rounds : ℕ) :
    Draws (fun r : α × List ℕ => Found rows start (patience ≠ 0 ∧ rounds ≠ 0) r.2) (¬Ready α src rows size start)
      (search src rows start reach patience rounds) := by
  have hu := usedFirst_perm rows start
  have hcount : (usedFirst rows start).countP (isUsed rows) = start.countP (isUsed rows) := hu.countP_eq _
  refine (meets_lift fun h : Ready α src rows size start => ?_).bind id fun laid _ => ?_
  · obtain ⟨laid, hlaid, -⟩ := rowsOf_ok h.sought.below
    exact ⟨laid, hlaid⟩
  extract_lets order t
  refine (meets_lift fun h : Ready α src rows size start => ?_).bind id fun first _ => ?_
  · exact Terrain.score_ok (t := t) hcount h.sought h.divides hu
  refine (Search.rounds_draws (t := t) hcount ⟨hu, hu⟩ size patience rounds).bind id fun s hs => ?_
  exact meets_pure ⟨hs.1.bestOrder, fun h => hcount ▸ hs.2 h⟩

/-- Every search of a plan takes steps. -/
def Plan.Steps (p : Plan) (tries : ℕ) : Prop :=
  ∀ i < tries, (p.patiences.getD i 0).toNat ≠ 0 ∧ (p.rounds.getD i 0).toNat ≠ 0

lemma searches_draws (p : Plan) (rows : List Row) (size n : ℕ) (keep : ℕ → Bool) (tries : ℕ) :
    Draws (fun found : List (α × List ℕ) => found.length = tries ∧
        ∀ r ∈ found, Found rows ((List.range n).filter keep) (p.Steps tries) r.2)
      (¬Ready α src rows size ((List.range n).filter keep)) (searches src p rows n keep tries) := by
  refine (meets_mapM (Q := fun _ => True) (P := fun r : α × List ℕ =>
    Found rows ((List.range n).filter keep) (p.Steps tries) r.2) fun i hi => ?_).imp (fun found h => ?_) id
  · extract_lets rest
    have hrs : ∀ order : List ℕ, order.Perm (List.range n) →
        Draws (fun r : α × List ℕ => True ∧ Found rows ((List.range n).filter keep) (p.Steps tries) r.2)
          (¬Ready α src rows size ((List.range n).filter keep)) (rest order) := by
      intro order ho
      have hk := ho.filter keep
      refine (search_draws rows size _ _ _ _).imp (fun r hr => ⟨trivial, hr.perm.trans hk, fun hp => ?_⟩) (mt fun h => ?_)
      · exact hk.countP_eq (isUsed rows) ▸ hr.two (hp i (mem_range.1 hi))
      · exact ⟨h.sought.of_perm hk, hk.length_eq ▸ h.varies, h.divides⟩
    split
    · exact hrs _ (.refl _)
    · exact (src.permutation_draws n).bind False.elim hrs
  · simpa using h.2

end Found

end Kinetics.Ordering
