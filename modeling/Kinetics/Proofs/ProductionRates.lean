import Kinetics.Emit.SpeciesRates
import Kinetics.Proofs.Meaning
import Kinetics.Proofs.SlotDiscipline
import Kinetics.Proofs.Stoichiometry
/-!
# Net production rates, with and without shared memory

While the statements for the reactions run, the sum of a species is what its own
place holds, once that was assigned, plus what its slot holds, if it has one with a
sum (`Sums`). Every load, every contribution and every write-back keeps this. At the
end the slots are empty and every place holds its whole sum.
-/

open List

namespace Kinetics.Emit

open Code Rate Accelerator

noncomputable section

variable {n s s' i : ℕ} {σ τ : Memory}

/-! ## Places -/

def productionPlace (n s : ℕ) : Place := if s + 1 = n then .cell "(*dy_N)" none else .cell "sp_rates" (some s)

lemma location_productionCell (n s : ℕ) :
    (productionCell n s : Expr Exact).location = some (productionPlace n s) := by
  unfold productionCell productionPlace
  split <;> rfl

lemma productionPlace_injective (h : productionPlace n s = productionPlace n s') : s = s' := by
  unfold productionPlace at h
  split at h <;> split at h
  · omega
  · simp at h
  · simp at h
  · simpa using h

lemma productionPlace_ne_slot (n s : ℕ) (label : String) : productionPlace n s ≠ .slot label := by
  unfold productionPlace
  split <;> exact nofun

lemma productionLocation_injective (h : productionLocation n s = productionLocation n s') : s = s' := by
  unfold productionLocation at h
  split at h <;> split at h
  · omega
  · simp at h
  · simp at h
  · simpa using h

def produced (n : ℕ) : Naming where
  key := id
  known l := ∃ s < n, l = productionLocation n s
  separate := by
    rintro _ _ ⟨s, hs, rfl⟩ ⟨s', hs', rfl⟩
    unfold productionLocation Location.serves
    split <;> split <;> simp

/-! ## What one reaction contributes -/

/-- Arrays other than the production rates are as before. -/
def SameRates (σ τ : Memory) : Prop := ∀ array, array ≠ "sp_rates" → τ.row array = σ.row array

lemma SameRates.refl (σ : Memory) : SameRates σ σ := fun _ _ => rfl

lemma SameRates.trans {υ : Memory} (h : SameRates σ τ) (h' : SameRates τ υ) : SameRates σ υ :=
  fun array ha => (h' array ha).trans (h array ha)

lemma sameRates_place (n s : ℕ) (v : ℝ) : SameRates σ (Function.update σ (productionPlace n s) v) := by
  intro array ha
  unfold productionPlace
  split
  · exact row_update_var_eq "(*dy_N)" array
  · exact row_update_row_of_ne ha s

lemma sameRates_slot (label : String) (v : ℝ) : SameRates σ (Function.update σ (.slot label) v) :=
  fun array _ => funext fun k => by simp [Memory.row]

variable (reactions : List (Reaction ℕ Exact)) (r : Reaction ℕ Exact)

/-- The net rate of a reaction, with its modification. -/
def netRate (σ : Memory) (i : ℕ) : ℝ :=
  (σ.row "fwd_rates" i - if r.reversible then σ.row "rev_rates" (reverseRank reactions i) else 0) *
    if r.isModified then σ.row "pres_mod" ((reactions.take i).countP (·.isModified)) else 1

variable {reactions r} in
lemma netRate_congr (h : SameRates σ τ) (i : ℕ) : netRate reactions r τ i = netRate reactions r σ i := by
  unfold netRate
  rw [h "fwd_rates" (by decide), h "rev_rates" (by decide), h "pres_mod" (by decide)]

lemma signedProduct_term {es : List (Expr Exact)} {vs : List ℝ} {e : Expr Exact} {v : ℝ}
    (he : Term σ e v) (hs : e.startsSigned = false) (h : List.Forall₂ (Term σ) es vs) (negative : Bool) :
    Term σ (signedProduct negative (e :: es)) ((if negative then -v else v) * vs.prod) := by
  have hfl : ∀ {e : Expr Exact} {v : ℝ}, Term σ e v → Term σ (es.foldl (· * ·) e) (v * vs.prod) := by
    induction h with
    | nil => exact fun he => by simpa using he
    | cons hf _ ih =>
      intro e v he
      rw [prod_cons, ← mul_assoc]
      exact ih (he.mul hf)
  cases negative with
  | true => exact hfl (he.neg hs)
  | false => exact hfl he

lemma netRateFactors_terms (σ : Memory) (i : ℕ) :
    ∃ e es v vs, netRateFactors reactions r i = e :: es ∧ Term σ e v ∧ e.startsSigned = false ∧
      List.Forall₂ (Term σ) es vs ∧ v * vs.prod = netRate reactions r σ i := by
  have hf : Term σ (.cell "fwd_rates" i) (σ.row "fwd_rates" i) := (Factor.cell _ i).term
  have hm : Term σ (.cell "pres_mod" ((reactions.take i).countP (·.isModified)))
    (σ.row "pres_mod" ((reactions.take i).countP (·.isModified))) := (Factor.cell _ _).term
  have hnet := (Factor.group (value_sub hf.value (Factor.cell "rev_rates" (reverseRank reactions i)).term)).term
  unfold netRateFactors netRate
  cases r.reversible <;> cases r.isModified
  · exact ⟨_, _, _, [], rfl, hf, rfl, .nil, by simp⟩
  · exact ⟨_, _, _, [_], rfl, hf, rfl, .cons hm .nil, by simp⟩
  · exact ⟨_, _, _, [], rfl, hnet, rfl, .nil, by simp⟩
  · exact ⟨_, _, _, [_], rfl, hnet, rfl, .cons hm .nil, by simp⟩

lemma contribution_value (σ : Memory) (i : ℕ) (nu : Exact) (negative : Bool) :
    (signedProduct negative (contribution reactions r i nu)).value σ =
      some ((if negative then -1 else 1) * |nu.toReal| * netRate reactions r σ i) := by
  obtain ⟨e, es, v, vs, hf, he, hs, hes, hv⟩ := netRateFactors_terms reactions r σ i
  have hsg : ∀ x : ℝ, (if negative then -x else x) = (if negative then -1 else 1) * x := by
    intro x
    split <;> ring
  rw [contribution, hf, ← hv]
  cases hone : Arithmetic.eq (Arithmetic.abs nu) Arithmetic.unit with
  | true =>
    have habs : |nu.toReal| = 1 := by simpa using (Exact.eq_iff _ _).1 hone
    refine (signedProduct_term he hs hes negative).value.trans ?_
    rw [hsg, habs, mul_one, mul_assoc]
  | false =>
    set size := if Arithmetic.isWhole (Arithmetic.abs nu) then Arithmetic.pointed (Arithmetic.abs nu)
      else Arithmetic.abs nu with hsz
    have hval : size.toReal = |nu.toReal| := by
      rw [hsz]
      split <;> simp
    have hp : (Expr.plain size).startsSigned = false := by
      change Arithmetic.isNegative size = false
      rw [Bool.eq_false_iff, ne_eq, Exact.isNegative_iff, hval, not_lt]
      exact abs_nonneg _
    refine (signedProduct_term (Factor.plain size).term hp (.cons he hes) negative).value.trans ?_
    rw [hsg, hval, prod_cons]

lemma contributionStep_run {target : Expr Exact} {q : Place} (ht : target.location = some q)
    (first : Bool) (σ : Memory) (i : ℕ) (nu : Exact) :
    (contributionStep target first nu (contribution reactions r i nu)).run σ = some (Function.update σ q
        ((if first then 0 else σ q) + nu.toReal * netRate reactions r σ i)) := by
  have hsg : (if Arithmetic.isNegative nu then -1 else 1) * |nu.toReal| = nu.toReal := by
    by_cases hneg : nu.toReal < 0
    · rw [if_pos ((Exact.isNegative_iff _).2 hneg), abs_of_neg hneg]
      ring
    · rw [if_neg (mt (Exact.isNegative_iff _).1 hneg), abs_of_nonneg (not_lt.1 hneg), one_mul]
  unfold contributionStep
  cases first with
  | true =>
    rw [if_pos rfl, run_assign 2 .set ht (contribution_value reactions r σ i nu _), hsg]
    simp [Form.update]
  | false =>
    rw [if_neg Bool.false_ne_true, run_assign 2 _ ht (contribution_value reactions r σ i nu false)]
    cases hneg : Arithmetic.isNegative nu <;> rw [hneg] at hsg <;> congr 2
    · simp only [Form.update, Bool.false_eq_true, if_false] at hsg ⊢
      rw [hsg]
    · simp only [Form.update, if_true, Bool.false_eq_true, if_false] at hsg ⊢
      linear_combination netRate reactions r σ i * hsg

/-! ## The sums so far -/

def Production.slotOf (p : Production) (n s : ℕ) : Option Slot := p.bank.bind (·.slotOf (productionLocation n s))

lemma slotOf_eq_some {p : Production} {b : Bank} (hb : b.Ordered (produced n)) (hbn : p.bank = some b)
    (hs : s < n) (t : Slot) : p.slotOf n s = some t ↔ (t, productionLocation n s) ∈ b.table (produced n) := by
  rw [Production.slotOf, hbn]
  exact Bank.slotOf_eq_some hb ⟨s, hs, rfl⟩

lemma slotOf_eq_none {p : Production} {b : Bank} (hb : b.Ordered (produced n)) (hbn : p.bank = some b)
    (hs : s < n) (h : ∀ t, (t, productionLocation n s) ∉ b.table (produced n)) : p.slotOf n s = none :=
  Option.eq_none_iff_forall_ne_some.2 fun t ht => h t ((slotOf_eq_some hb hbn hs t).1 ht)

/-- What the place of a species holds, once it was assigned. -/
def outside (n : ℕ) (assigned : List Bool) (σ : Memory) (s : ℕ) : Option ℝ :=
  if assigned.getD s false then some (σ (productionPlace n s)) else none

/-- What a slot holds; `fresh` slots hold nothing yet. -/
def inside (fresh : List ℕ) (σ : Memory) (o : Option Slot) : Option ℝ :=
  o.bind fun t => if t.number ∈ fresh then none else some (σ (.slot t.address))

/-- The sum of a species, if it has one yet. -/
def Production.sum (p : Production) (n : ℕ) (fresh : List ℕ) (σ : Memory) (s : ℕ) : Option ℝ :=
  Option.merge (· + ·) (outside n p.assigned σ s) (inside fresh σ (p.slotOf n s))

variable {xs : List Bool}

lemma getD_set_self (h : s < xs.length) : (xs.set s true).getD s false = true := by
  simp [h]

lemma getD_set_of_ne (h : s' ≠ s) : (xs.set s true).getD s' false = xs.getD s' false := by
  simp [h.symm]

section Updates
variable {assigned : List Bool} (v : ℝ)

lemma outside_assign (h : s < assigned.length) :
    outside n (assigned.set s true) (Function.update σ (productionPlace n s) v) s = some v := by
  rw [outside, getD_set_self h, if_pos rfl, Function.update_self]

lemma outside_assign_of_ne (h : s' ≠ s) :
    outside n (assigned.set s true) (Function.update σ (productionPlace n s) v) s' = outside n assigned σ s' := by
  have hp : productionPlace n s' ≠ productionPlace n s := fun he => h (productionPlace_injective he)
  rw [outside, outside, getD_set_of_ne h, Function.update_of_ne hp]

lemma outside_slot (label : String) :
    outside n assigned (Function.update σ (.slot label) v) s = outside n assigned σ s := by
  rw [outside, outside, Function.update_of_ne (productionPlace_ne_slot n s label)]

lemma inside_place (fresh : List ℕ) (o : Option Slot) :
    inside fresh (Function.update σ (productionPlace n s) v) o = inside fresh σ o := by
  simp only [inside, Function.update_of_ne (productionPlace_ne_slot n s _).symm]

end Updates

/-- The sums are `total`; the fresh slots belong to species in `todo`. -/
structure Sums (n : ℕ) (p : Production) (fresh todo : List ℕ) (σ : Memory) (total : ℕ → ℝ) : Prop where
  bank : ∀ b, p.bank = some b → b.Sound (produced n) ∧ b.watched = true
  assigned_length : p.assigned.length = n
  seen_length : p.seen.length = n
  total : ∀ s < n, (p.sum n fresh σ s).getD 0 = total s
  seen : ∀ s < n, p.seen.getD s false = (p.sum n fresh σ s).isSome
  pending : ∀ s < n, ∀ t, p.slotOf n s = some t → t.number ∈ fresh → s ∈ todo

namespace Sums

variable {p : Production} {fresh todo : List ℕ} {total : ℕ → ℝ} {t t' : Slot}

lemma mem_table (h : Sums n p fresh todo σ total) (hs : s < n) (ht : p.slotOf n s = some t) :
    ∃ b, p.bank = some b ∧ (t, productionLocation n s) ∈ b.table (produced n) := by
  obtain ⟨b, hb, -⟩ := Option.bind_eq_some_iff.1 ht
  exact ⟨b, hb, (slotOf_eq_some (h.bank b hb).1.toOrdered hb hs t).1 ht⟩

lemma number_ne (h : Sums n p fresh todo σ total) (hs : s < n) (hs' : s' < n) (hne : s ≠ s')
    (ht : p.slotOf n s = some t) (ht' : p.slotOf n s' = some t') :
    t.number ≠ t'.number ∧ t.address ≠ t'.address := by
  obtain ⟨b, hb, hm⟩ := h.mem_table hs ht
  obtain ⟨b', hb', hm'⟩ := h.mem_table hs' ht'
  obtain rfl : b = b' := Option.some.inj (hb.symm.trans hb')
  have hsn := (h.bank b hb).1
  have hsl : t ≠ t' := by
    rintro rfl
    exact hne (productionLocation_injective (hsn.location_unique hm hm'))
  obtain ⟨k, -, rfl⟩ := hsn.numbered hm
  obtain ⟨k', -, rfl⟩ := hsn.numbered hm'
  exact ⟨fun hk => hsl (congrArg _ hk), fun ha => hsl (congrArg _ (Slot.address_injective ha))⟩

lemma slotOf_use (h : Sums n p fresh todo σ total) (hs : s < n) (l : Location) (seen : List Bool) :
    Production.slotOf { p with bank := p.bank.map (·.use l), seen } n s = p.slotOf n s := by
  cases hb : p.bank with
  | none => simp [Production.slotOf, hb]
  | some b =>
    have hsn := (h.bank b hb).1.toOrdered
    refine Option.ext fun t => ?_
    rw [slotOf_eq_some (Bank.use_ordered hsn l) rfl hs, Bank.table_use, slotOf_eq_some hsn hb hs]

lemma add {p' : Production} {fresh' : List ℕ} (h : Sums n p fresh (s :: todo) σ total) (hs : s < n) (v : ℝ)
    (hb : ∀ b, p'.bank = some b → b.Sound (produced n) ∧ b.watched = true) (hal : p'.assigned.length = n)
    (hsn : p'.seen = p.seen.set s true) (hself : p'.sum n fresh' τ s = some ((p.sum n fresh σ s).getD 0 + v))
    (hot : ∀ s' < n, s' ≠ s → p'.sum n fresh' τ s' = p.sum n fresh σ s')
    (hpn : ∀ s' < n, ∀ t, p'.slotOf n s' = some t → t.number ∈ fresh' → s' ∈ todo) :
    Sums n p' fresh' todo τ (fun s' => total s' + if s = s' then v else 0) := by
  refine ⟨hb, hal, by rw [hsn, length_set, h.seen_length], fun s' hs' => ?_, fun s' hs' => ?_, hpn⟩ <;>
    by_cases hss : s' = s
  · subst hss
    rw [hself, if_pos rfl, ← h.total s' hs, Option.getD_some]
  · rw [hot s' hs' hss, if_neg (Ne.symm hss), add_zero, h.total s' hs']
  · subst hss
    rw [hself, hsn, getD_set_self (h.seen_length ▸ hs), Option.isSome_some]
  · rw [hot s' hs' hss, hsn, getD_set_of_ne hss, h.seen s' hs']

lemma addOutside (h : Sums n p fresh (s :: todo) σ total) (hs : s < n) (hsl : p.slotOf n s = none) (v : ℝ) :
    Sums n { p with assigned := p.assigned.set s true, seen := p.seen.set s true } fresh todo
      (Function.update σ (productionPlace n s) ((outside n p.assigned σ s).getD 0 + v))
      (fun s' => total s' + if s = s' then v else 0) := by
  refine h.add hs v h.bank (by simpa using h.assigned_length) rfl ?_ (fun s' _ hss => ?_) fun s' hs' t ht hf => ?_
  · rw [Production.sum, Production.sum, outside_assign _ (h.assigned_length ▸ hs)]
    change Option.merge _ _ (inside _ _ (p.slotOf n s)) = _
    simp [hsl, inside]
  · rw [Production.sum, outside_assign_of_ne _ hss, inside_place]
    rfl
  · rcases mem_cons.1 (h.pending s' hs' t ht hf) with rfl | hmem
    · cases hsl.symm.trans ht
    · exact hmem

lemma addInside (h : Sums n p fresh (s :: todo) σ total) (hs : s < n) (hsl : p.slotOf n s = some t) (v : ℝ) :
    Sums n { p with bank := p.bank.map (·.use (productionLocation n s)), seen := p.seen.set s true }
      (fresh.filter (· != t.number)) todo
      (Function.update σ (.slot t.address) ((inside fresh σ (some t)).getD 0 + v))
      (fun s' => total s' + if s = s' then v else 0) := by
  have hst : ∀ s' < n, _ = p.slotOf n s' := fun s' hs' => h.slotOf_use hs' (productionLocation n s) (p.seen.set s true)
  refine h.add hs v (fun b' hb' => ?_) h.assigned_length rfl ?_ (fun s' hs' hss => ?_) fun s' hs' t' ht' hf => ?_
  · obtain ⟨b, hb, rfl⟩ := Option.map_eq_some_iff.1 hb'
    obtain ⟨hsn, hw⟩ := h.bank b hb
    exact ⟨Bank.use_sound hsn _, (Bank.use_fields b _).2.2.2.trans hw⟩
  · rw [Production.sum, Production.sum, hst s hs, hsl, outside_slot]
    cases outside n p.assigned σ s <;> by_cases hf : t.number ∈ fresh <;> simp [inside, hf, add_assoc]
  · rw [Production.sum, Production.sum, hst s' hs', outside_slot]
    cases ho : p.slotOf n s' with
    | none => rfl
    | some t' =>
      obtain ⟨hnum, ha⟩ := h.number_ne hs' hs hss ho hsl
      simp [inside, hnum, ha]
  · rw [hst s' hs'] at ht'
    obtain ⟨hf, hne⟩ := mem_filter.1 hf
    rcases mem_cons.1 (h.pending s' hs' t' ht' hf) with rfl | hmem
    · cases ht'.symm.trans hsl
      simp at hne
    · exact hmem

end Sums

/-! ## Writing slots back -/

lemma writeBack_cons {h : Holding} (hl : h.location = productionLocation n s) (assigned : List Bool)
    (rest : List Holding) :
    ∃ target : Expr Exact, target.location = some (productionPlace n s) ∧
      writeBack n assigned (h :: rest) = ((writeBack (α := Exact) n (assigned.set s true) rest).1,
        .assign 2 target (if assigned.getD s false then .add else .set) (.slot h.slot.address) ::
          (writeBack n (assigned.set s true) rest).2) := by
  simp only [writeBack, hl]
  unfold productionLocation productionPlace
  by_cases hls : s + 1 = n
  · have hn : n - 1 = s := by omega
    refine ⟨.var "(*dy_N)", by simp only [if_pos hls]; rfl, ?_⟩
    simp only [if_pos hls, hn]
  · refine ⟨.cell "sp_rates" s, by simp only [if_neg hls]; rfl, ?_⟩
    simp only [if_neg hls, Int.toNat_natCast]

/-- Every slot was added to the place of its species, and nothing else changed. -/
structure WrittenBack (n : ℕ) (assigned : List Bool) (hs : List Holding) (σ : Memory)
    (assigned' : List Bool) (τ : Memory) : Prop where
  length : assigned'.length = n
  rates : SameRates σ τ
  slots : ∀ label, τ (.slot label) = σ (.slot label)
  written : ∀ s < n, ∀ h ∈ hs, h.location = productionLocation n s →
    outside n assigned' τ s = some ((outside n assigned σ s).getD 0 + σ (.slot h.slot.address))
  kept : ∀ s < n, (∀ h ∈ hs, h.location ≠ productionLocation n s) →
    assigned'.getD s false = assigned.getD s false ∧ τ (productionPlace n s) = σ (productionPlace n s)

namespace WrittenBack

variable {assigned assigned' : List Bool} {hs : List Holding} {h : Holding}

lemma outside_kept (hw : WrittenBack n assigned hs σ assigned' τ) (hsn : s < n)
    (hno : ∀ h ∈ hs, h.location ≠ productionLocation n s) :
    outside n assigned' τ s = outside n assigned σ s := by
  obtain ⟨ha, hp⟩ := hw.kept s hsn hno
  rw [outside, outside, ha, hp]

lemma cons (hlen : assigned.length = n) (hsn : s < n) (hl : h.location = productionLocation n s)
    (hnew : ∀ k ∈ hs, k.location ≠ h.location)
    (hw : WrittenBack n (assigned.set s true) hs (Function.update σ (productionPlace n s)
      ((outside n assigned σ s).getD 0 + σ (.slot h.slot.address))) assigned' τ) :
    WrittenBack n assigned (h :: hs) σ assigned' τ := by
  have hsl := fun label => Function.update_of_ne (productionPlace_ne_slot n s label).symm
    ((outside n assigned σ s).getD 0 + σ (.slot h.slot.address)) σ
  refine ⟨hw.length, (sameRates_place n s _).trans hw.rates, fun label => (hw.slots label).trans (hsl label),
    fun s' hs' k hk hks => ?_, fun s' hs' hno => ?_⟩
  · rcases mem_cons.1 hk with rfl | hk
    · -- the others leave the place of the first one alone
      obtain rfl : s = s' := productionLocation_injective (hl.symm.trans hks)
      rw [hw.outside_kept hsn fun j hj hjs => hnew j hj (hjs.trans hl.symm), outside_assign _ (hlen ▸ hsn)]
    · have hss : s' ≠ s := by
        rintro rfl
        exact hnew k hk (hks.trans hl.symm)
      rw [hw.written s' hs' k hk hks, outside_assign_of_ne _ hss, hsl]
  · have hss : s' ≠ s := by
      rintro rfl
      exact hno h mem_cons_self hl
    have hpl : productionPlace n s' ≠ productionPlace n s := fun he => hss (productionPlace_injective he)
    obtain ⟨ha, hp⟩ := hw.kept s' hs' fun k hk => hno k (mem_cons_of_mem _ hk)
    exact ⟨ha.trans (getD_set_of_ne hss), hp.trans (Function.update_of_ne hpl _ _)⟩

end WrittenBack

lemma writeBack_run {hs : List Holding} {assigned : List Bool} (hn : (hs.map (·.location)).Nodup)
    (hP : ∀ h ∈ hs, (produced n).known h.location) (hlen : assigned.length = n) (σ : Memory) :
    ∃ τ, runSteps σ (writeBack n assigned hs).2 = some τ ∧
      WrittenBack n assigned hs σ (writeBack (α := Exact) n assigned hs).1 τ := by
  induction hs generalizing assigned σ with
  | nil => exact ⟨σ, rfl, hlen, .refl σ, fun _ => rfl, by simp, fun _ _ _ => ⟨rfl, rfl⟩⟩
  | cons h hs ih =>
    rw [map_cons, nodup_cons, mem_map] at hn
    obtain ⟨s, hsn, hl⟩ := hP h mem_cons_self
    obtain ⟨target, ht, hc⟩ := writeBack_cons hl assigned hs
    have hst : (Step.assign 2 target (if assigned.getD s false then .add else .set)
        (.slot h.slot.address)).run σ = some (Function.update σ (productionPlace n s)
          ((outside n assigned σ s).getD 0 + σ (.slot h.slot.address))) := by
      rw [run_assign 2 _ ht (Factor.slot h.slot.address).value, outside]
      cases assigned.getD s false <;> simp [Form.update]
    obtain ⟨τ, hrun, hw⟩ := ih hn.2 (fun k hk => hP k (mem_cons_of_mem _ hk)) ((length_set ..).trans hlen) _
    rw [hc]
    refine ⟨τ, ?_, .cons hlen hsn hl (fun k hk heq => hn.1 ⟨k, hk, heq⟩) hw⟩
    rw [runSteps, hst, Option.bind_some, hrun]

/-! ## Loads -/

lemma changeRun_ok {reactions : List (Reaction ℕ Exact)} (h : ∀ r ∈ reactions, r.Aligned) (i s : ℕ) :
    ∃ k, changeRun reactions i s = .ok k := by
  have hc : ∀ rs : List (Reaction ℕ Exact), (∀ r ∈ rs, r.Aligned) → ∃ k, changeRun.count s rs = .ok k := by
    intro rs hrs
    induction rs with
    | nil => exact ⟨0, rfl⟩
    | cons r rs ih =>
      obtain ⟨k, hk⟩ := ih fun x hx => hrs x (mem_cons_of_mem _ hx)
      rw [changeRun.count, Reaction.net_eq (hrs r mem_cons_self) s, ok_bind]
      cases Arithmetic.isZero (r.change s) with
      | true => exact ⟨0, rfl⟩
      | false => exact ⟨k + 1, by simp [hk]⟩
  exact hc _ fun r hr => h r (mem_of_mem_drop hr)

lemma loadSums_ok {reactions : List (Reaction ℕ Exact)} (h : ∀ r ∈ reactions, r.Aligned)
    (r : Reaction ℕ Exact) (i : ℕ) {changing : List ℕ} (hlen : changing.length ≤ (participants r).length)
    (hs : ∀ s ∈ changing, s < n) {b : Bank} (hb : b.Sound (produced n)) :
    ∃ b' out, loadSums n reactions r i changing b = .ok (Bank.outcome b b' out) ∧
      Bank.Loading (produced n) b (changing.map (productionLocation n)) b' out := by
  choose uses hu using changeRun_ok h i
  have hmap : (participants r).mapM (changeRun reactions i) = .ok ((participants r).map uses) :=
    mapM_eq_ok_map fun s _ => hu s
  set requests := (changing.map (productionLocation n)).zip
    (((participants r).map uses).map fun u : ℕ => (Arithmetic.ofInt u : Exact)) with hr
  have hfst : requests.map Prod.fst = changing.map (productionLocation n) := by
    rw [hr, map_fst_zip]
    simpa using hlen
  have hP : ∀ q ∈ requests, (produced n).known q.1 := by
    intro q hq
    have hmem : q.1 ∈ requests.map Prod.fst := mem_map_of_mem hq
    rw [hfst] at hmem
    obtain ⟨s, hsc, hsq⟩ := mem_map.1 hmem
    exact ⟨s, hs s hsc, hsq.symm⟩
  obtain ⟨_, hld, b', out, rfl, hl⟩ := (Bank.load_loading hb.toOrdered hP).exists_ok hb.full.not_lt
  rw [hfst, show (produced n).key = id from rfl, map_id] at hl
  refine ⟨b', out, ?_, hl⟩
  rw [loadSums, hmap, ok_bind]
  exact hld

section Load
variable {p : Production} {assigned : List Bool} {total : ℕ → ℝ} {b b' : Bank} {out : List Holding} {changing : List ℕ}

def freshSlots (b b' : Bank) (out : List Holding) : List ℕ :=
  ((Bank.outcome b b' out).fresh.filter (·.2)).map (·.1.slot.number)

/-- A load with its write-backs moves the parts of a sum, and forgets none. -/
lemma load_parts (h : Sums n p [] [] σ total) (hb : p.bank = some b)
    (hl : Bank.Loading (produced n) b (changing.map (productionLocation n)) b' out)
    (hw : WrittenBack n p.assigned out σ assigned τ) (hs : s < n) :
    p.sum n [] σ s = Production.sum { p with bank := some b', assigned } n (freshSlots b b' out) τ s := by
  obtain ⟨hsn, hwt⟩ := h.bank b hb
  set p' : Production := { p with bank := some b', assigned }
  have hold := slotOf_eq_some hsn.toOrdered hb hs
  have hnew := slotOf_eq_some (p := p') hl.ordered rfl hs
  have hn : ∀ t, (t, productionLocation n s) ∈ b'.table (produced n) →
      (t.number ∈ freshSlots b b' out ↔ ∀ t', (t', productionLocation n s) ∉ b.table (produced n)) := fun t ht =>
    Bank.number_mem_fresh hsn.toOrdered hl.ordered ht
  rw [Production.sum, Production.sum]
  rcases hl.cases hwt (productionLocation n s) with
    ⟨t, ht, ht', hno⟩ | ⟨k, hk, hloc, ht, hno⟩ | ⟨hnot, hno⟩
  · -- the sum stays in its slot
    have hu : t.number ∉ freshSlots b b' out := fun hf => (hn t ht').1 hf t ht
    rw [hw.outside_kept hs hno, (hold t).2 ht, (hnew t).2 ht']
    simp [inside, hw.slots, hu]
  · -- the sum is evicted
    have hnn : p'.slotOf n s = none := slotOf_eq_none hl.ordered rfl hs hno
    rw [hw.written s hs k hk hloc, (hold _).2 ht, hnn]
    cases outside n p.assigned σ s <;> simp [inside]
  · -- there was no slot, and there is at most a fresh one
    rw [hw.outside_kept hs hno, slotOf_eq_none hsn.toOrdered hb hs hnot]
    cases ht : p'.slotOf n s with
    | none => rfl
    | some t =>
      have hf : t.number ∈ freshSlots b b' out := (hn t ((hnew t).1 ht)).2 hnot
      simp [inside, hf]

/-- A load with its write-backs changes no sum; the new slots belong to the changing species. -/
lemma Sums.load (h : Sums n p [] [] σ total) (hb : p.bank = some b)
    (hl : Bank.Loading (produced n) b (changing.map (productionLocation n)) b' out)
    (hw : WrittenBack n p.assigned out σ assigned τ) :
    Sums n { p with bank := some b', assigned } (freshSlots b b' out) changing τ total := by
  obtain ⟨hsn, hwt⟩ := h.bank b hb
  refine ⟨?_, hw.length, h.seen_length, fun s hs => load_parts h hb hl hw hs ▸ h.total s hs,
    fun s hs => load_parts h hb hl hw hs ▸ h.seen s hs, fun s hs t ht hf => ?_⟩
  · rintro _ ⟨⟩
    exact ⟨hl.sound hsn, hl.watched.trans hwt⟩
  · rw [slotOf_eq_some hl.ordered rfl hs] at ht
    rcases hl.added _ ht with hin | ⟨hwn, -⟩
    · exact absurd hin ((Bank.number_mem_fresh hsn.toOrdered hl.ordered ht).1 hf t)
    · obtain ⟨s', hs', heq⟩ := mem_map.1 hwn
      exact productionLocation_injective heq ▸ hs'

/-- Bringing sums into slots changes no sum; the new slots belong to the changing species. -/
lemma bringIn_run {reactions : List (Reaction ℕ Exact)} (hr : ∀ r ∈ reactions, r.Aligned)
    (r : Reaction ℕ Exact) (i : ℕ) (hlen : changing.length ≤ (participants r).length)
    (hs : ∀ s ∈ changing, s < n) (h : Sums n p [] [] σ total) :
    ∃ p' fresh backs τ, bringIn n reactions r i changing p = .ok ((p', fresh), backs) ∧
      runSteps σ backs = some τ ∧ SameRates σ τ ∧ Sums n p' fresh changing τ total := by
  unfold bringIn
  cases hb : p.bank with
  | none =>
    exact ⟨p, [], [], σ, rfl, rfl, .refl σ, h.bank, h.assigned_length, h.seen_length, h.total, h.seen,
      fun _ _ _ _ hf => absurd hf not_mem_nil⟩
  | some b =>
    have hsn := (h.bank b hb).1
    obtain ⟨b', out, hld, hl⟩ := loadSums_ok hr r i hlen hs hsn
    have hout : ∀ k ∈ out, (produced n).known k.location := fun k hk =>
      hsn.known _ (hl.evicted (k.entry _) (mem_map_of_mem hk)).1
    obtain ⟨τ, hrun, hw⟩ := writeBack_run hl.once hout h.assigned_length σ
    exact ⟨_, _, _, τ, by simp only [hld, ok_bind]; rfl, hrun, hw.rates, h.load hb hl hw⟩

end Load

/-! ## One reaction -/

section OneReaction
variable {species : List (Species Exact)} {speciesLabels : List ℤ} {p : Production}
  {fresh todo : List ℕ} {total : ℕ → ℝ}

lemma speciesRemark_ok (hs : s < speciesLabels.length) :
    ∃ text, (speciesRemark speciesLabels s : Except Fault (Step Exact)) = .ok (.remark text) := by
  have hl := List.getElem?_eq_getElem hs
  exact ⟨"sp " ++ toString speciesLabels[s], by rw [speciesRemark, entryAt_eq_ok.2 hl]; rfl⟩

/-- The statements for one species add its contribution to its sum. -/
lemma speciesSteps_run (h : Sums species.length p fresh (s :: todo) σ total) (hs : s < species.length)
    (hl : s < speciesLabels.length) (i : ℕ) (nu : Exact) :
    ∃ p' fresh' steps τ,
      speciesSteps species speciesLabels reactions r i (p, fresh) (s, nu) = .ok ((p', fresh'), steps) ∧
      runSteps σ steps = some τ ∧ SameRates σ τ ∧
      Sums species.length p' fresh' todo τ
        (fun s' => total s' + if s = s' then nu.toReal * netRate reactions r σ i else 0) := by
  obtain ⟨text, hr⟩ := speciesRemark_ok hl
  have hsp := List.getElem?_eq_getElem hs
  have hsl : p.slotOf species.length s =
      (p.bank.bind (·.find? (productionLocation species.length s))).map (·.slot) := by
    unfold Production.slotOf
    cases p.bank <;> rfl
  unfold speciesSteps
  simp only [entryAt_eq_ok.2 hsp, hr, ok_bind]
  cases hf : p.bank.bind (·.find? (productionLocation species.length s)) with
  | some k =>
    rw [hf, Option.map_some] at hsl
    refine ⟨_, _, _, _, rfl, ?_, sameRates_slot _ _, h.addInside hs hsl _⟩
    have hrun := contributionStep_run reactions r
      (show (Expr.slot k.slot.address).location = _ from rfl) (fresh.contains k.slot.number) σ i nu
    simp only [runSteps, run_remark, Option.bind_some, hrun, inside, contains_iff_mem]
    split <;> rfl
  | none =>
    rw [hf, Option.map_none] at hsl
    refine ⟨_, _, _, _, rfl, ?_, sameRates_place _ _ _, h.addOutside hs hsl _⟩
    have hrun := contributionStep_run reactions r
      (location_productionCell species.length s) (!p.assigned.getD s false) σ i nu
    simp only [runSteps, run_remark, Option.bind_some, hrun, outside]
    cases p.assigned.getD s false <;> rfl

/-- The statements for several species add all their contributions. -/
lemma speciesRun_run {entries : List (ℕ × Exact)} (h : Sums species.length p fresh (entries.map Prod.fst) σ total)
    (hs : ∀ e ∈ entries, e.1 < species.length) (hl : species.length ≤ speciesLabels.length) (i : ℕ) :
    ∃ p' fresh' steps τ, speciesRun species speciesLabels reactions r i (p, fresh) entries = .ok (p', steps) ∧
      runSteps σ steps = some τ ∧ SameRates σ τ ∧
      Sums species.length p' fresh' [] τ (fun s' => total s' +
        (entries.map fun e => e.2.toReal * if e.1 = s' then netRate reactions r σ i else 0).sum) := by
  induction entries generalizing p fresh σ total with
  | nil => exact ⟨p, fresh, [], σ, rfl, rfl, .refl σ, by simpa using h⟩
  | cons e entries ih =>
    obtain ⟨s, nu⟩ := e
    have hsn := hs (s, nu) mem_cons_self
    obtain ⟨p₁, fresh₁, first, τ₁, hst, hrun, hsm, h₁⟩ := speciesSteps_run reactions r h hsn (hsn.trans_le hl) i nu
    obtain ⟨p₂, fresh₂, more, τ₂, hs', hr', hsm', h₂⟩ := ih h₁ fun e he => hs e (mem_cons_of_mem _ he)
    refine ⟨p₂, fresh₂, first ++ more, τ₂, ?_, ?_, hsm.trans hsm', ?_⟩
    · simp only [speciesRun, hst, hs', ok_bind, pure_ok]
    · rw [runSteps_append, hrun, Option.bind_some, hr']
    · rw [netRate_congr hsm] at h₂
      convert h₂ using 2
      rw [map_cons, sum_cons, mul_ite, mul_zero]
      ring

lemma changingSpecies_ok (h : r.Aligned) : changingSpecies r = .ok ((participants r).filterMap (changing r)) := by
  refine filterMapM_eq_ok_filterMap fun s _ => ?_
  rw [Reaction.net_eq h, ok_bind, changing]
  rfl

lemma Sums.settled (h : Sums n p fresh [] σ total) : Sums n p [] [] σ total := by
  have hsm : ∀ s < n, p.sum n fresh σ s = p.sum n [] σ s := by
    intro s hs
    rw [Production.sum, Production.sum]
    cases ht : p.slotOf n s with
    | none => rfl
    | some t => simp [inside, mt (h.pending s hs t ht) not_mem_nil]
  exact ⟨h.bank, h.assigned_length, h.seen_length, fun s hs => hsm s hs ▸ h.total s hs,
    fun s hs => hsm s hs ▸ h.seen s hs, by simp⟩

variable {reactionLabels : List ℤ}

/-- The statements for one reaction add its net rate to every species as often as it changes. -/
lemma productionSteps_run (h : Sums species.length p [] [] σ total)
    (hr : ∀ r ∈ reactions, r.Aligned) (hmem : r ∈ reactions)
    (hs : ∀ s ∈ participants r, s < species.length) (hl : species.length ≤ speciesLabels.length)
    (hi : i < reactionLabels.length) :
    ∃ p' steps τ, productionSteps species speciesLabels reactionLabels reactions p r i = .ok (p', steps) ∧
      runSteps σ steps = some τ ∧ SameRates σ τ ∧
      Sums species.length p' [] [] τ (fun s => total s + (r.change s).toReal * netRate reactions r σ i) := by
  set entries := (participants r).filterMap (changing r) with hen
  have hsub : ∀ e ∈ entries, e.1 < species.length := by
    intro e he
    obtain ⟨s, hsp, hse⟩ := mem_filterMap.1 he
    unfold changing at hse
    split at hse
    · cases hse
    · cases hse
      exact hs s hsp
  have hlen : (entries.map Prod.fst).length ≤ (participants r).length := by
    rw [length_map]
    exact length_filterMap_le _ _
  obtain ⟨p₁, fresh, backs, σ₁, hb, hr₁, hs₁, h₁⟩ := bringIn_run hr r i hlen (fun s hse => by
      obtain ⟨e, he, rfl⟩ := mem_map.1 hse
      exact hsub e he) h
  obtain ⟨p₂, fresh', steps, σ₂, hst, hr₂, hs₂, h₂⟩ := speciesRun_run reactions r h₁ hsub hl i
  have hlb := List.getElem?_eq_getElem hi
  refine ⟨p₂, .remark ("rxn " ++ toString reactionLabels[i]) :: backs ++ steps ++ [.blank], σ₂, ?_, ?_,
    hs₁.trans hs₂, ?_⟩
  · simp only [productionSteps, entryAt_eq_ok.2 hlb, changingSpecies_ok r (hr r hmem), ← hen, ok_bind, hb, hst, pure_ok]
  · simp only [cons_append, runSteps, runSteps_append, run_remark, Option.bind_some, hr₁, hr₂, run_blank]
  · have := h₂.settled
    simpa only [netRate_congr hs₁, hen, sum_changing_single] using this

/-- The statements for all reactions leave the sums over the reactions. -/
lemma productionRun_run {todo : List (Reaction ℕ Exact × ℕ)}
    (h : Sums species.length p [] [] σ total) (hr : ∀ r ∈ reactions, r.Aligned)
    (hs : ∀ r ∈ reactions, ∀ s ∈ participants r, s < species.length)
    (hl : species.length ≤ speciesLabels.length)
    (ht : ∀ x ∈ todo, x.1 ∈ reactions ∧ x.2 < reactionLabels.length) :
    ∃ p' steps τ, productionRun species speciesLabels reactionLabels reactions p todo = .ok (p', steps) ∧
      runSteps σ steps = some τ ∧ SameRates σ τ ∧
      Sums species.length p' [] [] τ (fun s => total s +
        (todo.map fun x => (x.1.change s).toReal * netRate reactions x.1 σ x.2).sum) := by
  induction todo generalizing p σ total with
  | nil => exact ⟨p, [], σ, rfl, rfl, .refl σ, by simpa using h⟩
  | cons x todo ih =>
    obtain ⟨r, i⟩ := x
    obtain ⟨hmem, hi⟩ := ht (r, i) mem_cons_self
    obtain ⟨p₁, first, σ₁, hst, hrun, hsm, h₁⟩ := productionSteps_run reactions r h hr hmem (hs r hmem) hl hi
    obtain ⟨p₂, more, σ₂, hs', hr', hsm', h₂⟩ := ih h₁ fun x hx => ht x (mem_cons_of_mem _ hx)
    refine ⟨p₂, first ++ more, σ₂, ?_, ?_, hsm.trans hsm', ?_⟩
    · simp only [productionRun, hst, hs', ok_bind, pure_ok]
    · rw [runSteps_append, hrun, Option.bind_some, hr']
    · simpa only [netRate_congr hsm, map_cons, sum_cons, add_assoc] using h₂

end OneReaction

/-! ## The whole function -/

section Body
variable {species : List (Species Exact)} {speciesLabels reactionLabels : List ℤ} {p : Production} {total : ℕ → ℝ}

lemma zeroStep_run {zs : List ℕ} (hz : ∀ s ∈ zs, s < speciesLabels.length) (σ : Memory) :
    ∃ steps τ, zs.mapM (zeroStep n speciesLabels) = .ok steps ∧ runSteps σ steps.flatten = some τ ∧
      (∀ label, τ (.slot label) = σ (.slot label)) ∧
      ∀ s, τ (productionPlace n s) = if s ∈ zs then 0 else σ (productionPlace n s) := by
  induction zs generalizing σ with
  | nil => exact ⟨[], σ, rfl, rfl, fun _ => rfl, by simp⟩
  | cons z zs ih =>
    obtain ⟨text, hr⟩ := speciesRemark_ok (hz z mem_cons_self)
    set σ₁ : Memory := Function.update σ (productionPlace n z) 0 with hσ₁
    have hset : (Step.set (productionCell n z) 0.0).run σ = some σ₁ := by
      refine (run_assign 2 .set (location_productionCell n z) (Factor.constant _).value).trans ?_
      norm_num [hσ₁, Form.update, Decimal.toReal]
    obtain ⟨steps, τ, hmap, hrun, hsl, hp⟩ := ih (fun s hs => hz s (mem_cons_of_mem _ hs)) σ₁
    refine ⟨[.remark text, .set (productionCell n z) 0.0] :: steps, τ, ?_, ?_, fun label => ?_, fun s => ?_⟩
    · rw [mapM_cons, zeroStep, hr, hmap]
      rfl
    · simp only [flatten_cons, cons_append, nil_append, runSteps, run_remark, Option.bind_some, hset, hrun]
    · rw [hsl, hσ₁, Function.update_of_ne (productionPlace_ne_slot _ _ _).symm]
    · rw [hp, hσ₁]
      by_cases hs : s = z
      · subst hs
        simp
      · have hpl : productionPlace n s ≠ productionPlace n z := fun h => hs (productionPlace_injective h)
        simp [hs, hpl]

lemma zeroSteps_run {seen : List Bool} (hsn : seen.length = n) (hl : n ≤ speciesLabels.length) (σ : Memory) :
    ∃ steps τ, zeroSteps n speciesLabels seen = .ok steps ∧ runSteps σ steps = some τ ∧
      (∀ label, τ (.slot label) = σ (.slot label)) ∧
      ∀ s < n, τ (productionPlace n s) = if seen.getD s false then σ (productionPlace n s) else 0 := by
  set idle := (seen.zipIdx.filter fun x => !x.1).map (·.2) with hi
  have hmem : ∀ s, s ∈ idle ↔ seen[s]? = some false := by
    intro s
    simp [hi, mem_zipIdx_iff_getElem?]
  have hlt : ∀ s ∈ idle, s < speciesLabels.length := by
    intro s hs
    obtain ⟨h, -⟩ := List.getElem?_eq_some_iff.1 ((hmem s).1 hs)
    omega
  obtain ⟨steps, τ, hmap, hrun, hsl, hp⟩ := zeroStep_run (n := n) hlt σ
  refine ⟨steps.flatten, τ, ?_, hrun, hsl, fun s hs => ?_⟩
  · change (idle.mapM (zeroStep n speciesLabels) >>= fun lists => pure lists.flatten) = _
    rw [hmap, ok_bind, pure_ok]
  · obtain ⟨x, hx⟩ : ∃ x, seen[s]? = some x := ⟨_, List.getElem?_eq_getElem (hsn ▸ hs)⟩
    simp only [hp, hmem, getD_eq_getElem?_getD, hx]
    cases x <;> simp

lemma finalBacks_run (h : Sums n p [] [] σ total) (τ : Memory) (hsl : ∀ label, τ (.slot label) = σ (.slot label))
    (hp : ∀ s < n, τ (productionPlace n s) = if p.seen.getD s false then σ (productionPlace n s) else 0) :
    ∃ backs υ, finalBacks n p = .ok backs ∧ runSteps τ backs = some υ ∧ ∀ s < n, υ (productionPlace n s) = total s := by
  -- a sum without slot is in its place, or it is zero
  have hpl : ∀ s < n, p.slotOf n s = none → τ (productionPlace n s) = total s := by
    intro s hs hn
    rw [hp s hs, h.seen s hs, ← h.total s hs, Production.sum, hn, outside]
    cases p.assigned.getD s false <;> rfl
  have ho : ∀ s < n, outside n p.assigned τ s = outside n p.assigned σ s := by
    intro s hs
    rw [outside, outside, hp s hs, h.seen s hs, Production.sum, outside]
    cases p.assigned.getD s false with
    | false => rfl
    | true => cases inside [] σ (p.slotOf n s) <;> rfl
  unfold finalBacks
  cases hb : p.bank with
  | none => exact ⟨[], τ, rfl, rfl, fun s hs => hpl s hs (by rw [Production.slotOf, hb]; rfl)⟩
  | some b =>
    obtain ⟨hsn, hwt⟩ := h.bank b hb
    obtain ⟨⟨b', _⟩, hev, -, -, -, -, rfl⟩ := (Bank.evictAll_reaches hsn.toOrdered).exists_ok hsn.full.not_lt
    rw [hwt, if_pos rfl] at hev
    have hnd : (b.held.map (·.location)).Nodup := by
      have := hsn.locations
      rwa [Bank.table, map_map] at this
    obtain ⟨υ, hrun, hw⟩ := writeBack_run hnd (fun k hk => hsn.known (k.entry _) (mem_map_of_mem hk)) h.assigned_length τ
    refine ⟨_, υ, by simp only [hev, ok_bind]; rfl, hrun, fun s hs => ?_⟩
    by_cases hh : ∃ k ∈ b.held, k.location = productionLocation n s
    · obtain ⟨k, hk, hloc⟩ := hh
      have hst : p.slotOf n s = some k.slot := (slotOf_eq_some hsn.toOrdered hb hs _).2 (hloc ▸ mem_map_of_mem hk)
      have hplace := (Option.ite_none_right_eq_some.1 (hw.written s hs k hk hloc)).2
      rw [Option.some.inj hplace, ho s hs, hsl, ← h.total s hs, Production.sum, hst]
      cases outside n p.assigned σ s <;> simp [inside]
    · have hn : p.slotOf n s = none := by
        refine slotOf_eq_none hsn.toOrdered hb hs fun t ht => hh ?_
        obtain ⟨k, hk, he⟩ := mem_map.1 ht
        exact ⟨k, hk, congrArg Prod.snd he⟩
      rw [(hw.kept s hs fun k hk hloc => hh ⟨k, hk, hloc⟩).2, hpl s hs hn]

lemma slotOf_of_held_nil {b : Bank} (hb : b.held = []) (l : Location) : b.slotOf l = none := by
  simp [Bank.slotOf, Bank.find?, hb]

lemma start_sums (t : Target) (n : ℕ) (σ : Memory) :
    Sums n ⟨t.freshBank.map fun b => { b with watched := true }, List.replicate n false, List.replicate n false⟩
      [] [] σ fun _ => 0 := by
  have hf : ∀ b, t.freshBank = some b → ∃ b₀ : Bank, b = b₀.reset := by
    intro b hb
    unfold Target.freshBank at hb
    split at hb
    · obtain ⟨b₀, -, rfl⟩ := Option.map_eq_some_iff.1 hb
      exact ⟨b₀, rfl⟩
    · cases hb
  have hsl : ∀ s, Production.slotOf ⟨t.freshBank.map fun b => { b with watched := true }, List.replicate n false,
      List.replicate n false⟩ n s = none := by
    intro s
    rw [Production.slotOf]
    cases hb : t.freshBank with
    | none => rfl
    | some b =>
      obtain ⟨b₀, rfl⟩ := hf b hb
      exact slotOf_of_held_nil rfl _
  refine ⟨?_, length_replicate, length_replicate, fun s hs => ?_, fun s hs => ?_, fun s hs t ht => ?_⟩
  · intro b hb
    obtain ⟨b₁, hb₁, rfl⟩ := Option.map_eq_some_iff.1 hb
    obtain ⟨b₀, rfl⟩ := hf b₁ hb₁
    exact ⟨Bank.reset_sound b₀ true, rfl⟩
  · simp [Production.sum, outside, inside, hsl, hs]
  · simp [Production.sum, outside, inside, hsl, hs]
  · rw [hsl] at ht
    cases ht

def productionRate (reactions : List (Reaction ℕ Exact)) (σ : Memory) (s : ℕ) : ℝ :=
  (reactions.zipIdx.map fun x => (x.1.change s).toReal * netRate reactions x.1 σ x.2).sum

/-- With or without shared memory, the function leaves the production rates in their places. -/
lemma productionBody_run {reactions : List (Reaction ℕ Exact)} (hr : ∀ r ∈ reactions, r.Aligned)
    (hs : ∀ r ∈ reactions, ∀ s ∈ participants r, s < species.length)
    (hl : species.length ≤ speciesLabels.length) (hrl : reactions.length ≤ reactionLabels.length)
    (t : Target) (σ : Memory) :
    ∃ body seen τ, productionBody t species reactions speciesLabels reactionLabels = .ok (body, seen) ∧
      runSteps σ body = some τ ∧
      ∀ s < species.length, τ (productionPlace species.length s) = productionRate reactions σ s := by
  have ht : ∀ x ∈ reactions.zipIdx, x.1 ∈ reactions ∧ x.2 < reactionLabels.length := by
    rintro ⟨r, i⟩ hx
    have hi := mem_zipIdx_iff_getElem?.1 hx
    exact ⟨mem_of_getElem? hi, (List.getElem?_eq_some_iff.1 hi).1.trans_le hrl⟩
  obtain ⟨p, steps, σ₁, hst, hr₁, -, h₁⟩ := productionRun_run reactions (start_sums t species.length σ) hr hs hl ht
  obtain ⟨zeros, σ₂, hz, hr₂, hsl, hp⟩ := zeroSteps_run h₁.seen_length hl σ₁
  obtain ⟨backs, σ₃, hb, hr₃, hf⟩ := finalBacks_run h₁ σ₂ hsl hp
  refine ⟨(if t.freshBank.isSome then [.line (Bank.declaration 2)] else []) ++ steps ++ zeros ++ backs,
    p.seen, σ₃, ?_, ?_, ?_⟩
  · simp only [productionBody, hst, hz, hb, ok_bind, pure_ok]
  · have hd : runSteps σ (if t.freshBank.isSome then [.line (Bank.declaration 2)] else []) = some σ := by
      split <;> rfl
    simp only [runSteps_append, hd, Option.bind_some, hr₁, hr₂, hr₃]
  · intro s hsn
    rw [hf s hsn, zero_add, productionRate]

/-- A dissociation that is reversible, and the way back over a third body. -/
def exchange : List (Reaction ℕ Exact) :=
  [Reaction.elementary true [0] [.count 1] [1] [.count 2] (.measure 1) (.count 0) (.measure 0),
   { Reaction.elementary false [1] [.count 2] [0] [.count 1] (.measure 1) (.count 0) (.measure 0) with
     thirdBody := true }]

/-- The production rates summed up in the slots of a thread, however many it has, are those
summed up in place. -/
theorem shared_production (species : List (Species Exact)) (reactions : List (Reaction ℕ Exact))
    (speciesLabels reactionLabels : List ℤ) (t : Target) (b : Bank) (hr : ∀ r ∈ reactions, r.Aligned)
    (hs : ∀ r ∈ reactions, ∀ s ∈ participants r, s < species.length)
    (hlabels : species.length ≤ speciesLabels.length) (hrl : reactions.length ≤ reactionLabels.length) :
    ∃ shared plain seen seen',
      productionBody { t with language := .cuda, bank := some b } species reactions speciesLabels
        reactionLabels = .ok (shared, seen) ∧
      productionBody { t with language := .cuda, bank := none } species reactions speciesLabels
        reactionLabels = .ok (plain, seen') ∧
      ∀ σ, ∃ τ τ', runSteps σ shared = some τ ∧ runSteps σ plain = some τ' ∧ ∀ s < species.length,
          τ (productionPlace species.length s) = productionRate reactions σ s ∧
          τ' (productionPlace species.length s) = productionRate reactions σ s := by
  have hrun := productionBody_run hr hs hlabels hrl
  obtain ⟨shared, seen, -, hshared, -⟩ := hrun { t with language := .cuda, bank := some b } fun _ => 0
  obtain ⟨plain, seen', -, hplain, -⟩ := hrun { t with language := .cuda, bank := none } fun _ => 0
  refine ⟨shared, plain, seen, seen', hshared, hplain, fun σ => ?_⟩
  obtain ⟨_, _, τ, hok, hτ, hvalues⟩ := hrun { t with language := .cuda, bank := some b } σ
  obtain ⟨_, _, τ', hok', hτ', hvalues'⟩ := hrun { t with language := .cuda, bank := none } σ
  cases hshared.symm.trans hok
  cases hplain.symm.trans hok'
  exact ⟨τ, τ', hτ, hτ', fun s hsn => ⟨hvalues s hsn, hvalues' s hsn⟩⟩

/-- The sums of both species with one slot per thread. -/
theorem exchange_production : (∀ r ∈ exchange, r.Aligned) ∧ (∀ r ∈ exchange, ∀ s ∈ participants r, s < 2) ∧
    ∃ shared plain seen seen',
      productionBody { language := .cuda, bank := some { perBlock := 32, perThread := 1 } } [default, default]
        exchange [0, 1] [0, 1] = .ok (shared, seen) ∧
      productionBody { language := .cuda, bank := none } [default, default] exchange [0, 1] [0, 1] =
        .ok (plain, seen') ∧
      ∀ σ, ∃ τ τ', runSteps σ shared = some τ ∧ runSteps σ plain = some τ' ∧
        ∀ s < 2, τ (productionPlace 2 s) = productionRate exchange σ s ∧
          τ' (productionPlace 2 s) = productionRate exchange σ s := by
  have hr : ∀ r ∈ exchange, r.Aligned := by
    intro r hr
    rcases mem_pair.1 hr with rfl | rfl <;> exact ⟨le_rfl, le_rfl⟩
  have hs : ∀ r ∈ exchange, ∀ s ∈ participants r, s < 2 := by
    intro r hr s hs
    rcases mem_pair.1 hr with rfl | rfl <;> simp [Reaction.elementary] at hs <;> omega
  exact ⟨hr, hs, shared_production [default, default] exchange [0, 1] [0, 1] { language := .cuda }
    { perBlock := 32, perThread := 1 } hr hs le_rfl le_rfl⟩

end Body

end

end Kinetics.Emit
