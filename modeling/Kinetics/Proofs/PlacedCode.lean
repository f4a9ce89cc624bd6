import Kinetics.Code.Placement
import Kinetics.Proofs.FreshCopies
import Kinetics.Proofs.StaleMemory
/-!
# Code with its locations in shared memory

Code that never writes an array can read copies of its elements. `placeItems` replaces
the elements that are held by their slots and adds the statements that fill new slots:
the code computes the same as before, and it always exists (`placeItems_placed`).
-/

open List

namespace Kinetics.Code

open Accelerator

noncomputable section

/-! ## Reading slots for elements -/

def SameCells (σ τ : Memory) : Prop := ∀ array index, τ (.cell array index) = σ (.cell array index)

/-- Slots are given for elements of one array, and they hold copies of them. -/
def Copied (array : String) (slotOf : String → Option Int → Option String) (τ : Memory) : Prop :=
  ∀ a i label, slotOf a i = some label → a = array ∧ τ (.slot label) = τ (.cell a i)

def Kept (array : String) (τ τ' : Memory) : Prop :=
  (∀ label, τ' (.slot label) = τ (.slot label)) ∧ ∀ i, τ' (.cell array i) = τ (.cell array i)

variable {array : String} {slotOf : String → Option Int → Option String} {σ τ τ' : Memory}

lemma Kept.refl (array : String) (τ : Memory) : Kept array τ τ := ⟨fun _ => rfl, fun _ => rfl⟩

variable {υ : Memory}

lemma Kept.trans (h : Kept array σ τ) (h' : Kept array τ υ) : Kept array σ υ :=
  ⟨fun label => (h'.1 label).trans (h.1 label), fun i => (h'.2 i).trans (h.2 i)⟩

lemma Copied.kept (h : Copied array slotOf τ) (hk : Kept array τ τ') : Copied array slotOf τ' := by
  intro a i label hl
  obtain ⟨rfl, hc⟩ := h a i label hl
  exact ⟨rfl, by rw [hk.1, hk.2, hc]⟩

lemma startsSigned_place (slotOf : String → Option Int → Option String) (e : Expr Exact) :
    (e.place slotOf).startsSigned = e.startsSigned := by
  induction e with
  | element a i =>
    simp only [Expr.place]
    split <;> rfl
  | pointee p w =>
    simp only [Expr.place]
    split <;> rfl
  | firstColumn m r =>
    simp only [Expr.place]
    split <;> rfl
  | binary op gap a b iha ihb => exact iha
  | beside a b iha ihb => exact iha
  | padded before after e ih => simp only [Expr.place, Expr.startsSigned, ih]
  | _ => rfl

variable {e : Expr Exact}

lemma read_place (h : SameCells σ τ) (hc : Copied array slotOf τ)
    (he : ∀ label, Place.slot label ∉ e.places) (s : Scan) : (e.place slotOf).read τ s = e.read σ s := by
  -- a location is read from its slot if it has one
  have hp : ∀ a i label, slotOf a i = some label → τ (.slot label) = σ (.cell a i) := fun a i label hl =>
    (hc a i label hl).2.trans (h a i)
  induction e generalizing s with
  | number | constant | named | address | opened | hole => rfl
  | element | pointee | firstColumn =>
    simp only [Expr.place]
    split
    · next label hl => simp only [Expr.read, hp _ _ label hl]
    · simp only [Expr.read, h _ _]
  | slot label => exact absurd mem_cons_self (he label)
  | negate after e ih => simp only [Expr.place, Expr.read, startsSigned_place, funext (ih he)]
  | apply _ _ e ih | tenPower e ih | group e ih | padded _ _ e ih => simp only [Expr.place, Expr.read, ih he]
  | binary _ _ a b iha ihb | apply2 _ a b iha ihb | beside a b iha ihb =>
    simp only [Expr.places, mem_append, not_or, forall_and] at he
    simp only [Expr.place, Expr.read, startsSigned_place, iha he.1, funext (ihb he.2)]

lemma value_place (h : SameCells σ τ) (hc : Copied array slotOf τ)
    (he : e.Fits (readingGrammar array)) : (e.place slotOf).value τ = e.value σ := by
  have hs : ∀ label, Place.slot label ∉ e.places := by
    intro label hp
    obtain ⟨a, -, i, hcl⟩ := he.places id _ hp
    cases hcl
  rw [Expr.value, Expr.value, read_place h hc hs]

/-! ## Running placed statements -/

lemma SameCells.refl (σ : Memory) : SameCells σ σ := fun _ _ => rfl

lemma SameCells.trans (h : SameCells σ τ) (h' : SameCells τ υ) : SameCells σ υ := fun a i => (h' a i).trans (h a i)

lemma SameCells.update (h : SameCells σ τ) (p : Place) (v : ℝ) :
    SameCells (Function.update σ p v) (Function.update τ p v) := by
  intro a i
  by_cases hp : Place.cell a i = p
  · rw [← hp, Function.update_self, Function.update_self]
  · rw [Function.update_of_ne hp, Function.update_of_ne hp, h a i]

lemma kept_update {a : String} (ha : a ≠ array) (i : Option Int) (τ : Memory) (v : ℝ) :
    Kept array τ (Function.update τ (.cell a i) v) :=
  ⟨fun _ => Function.update_of_ne (by simp) _ _, fun _ => Function.update_of_ne (by simp [ha.symm]) _ _⟩

lemma location_place (hc : Copied array slotOf τ) {target : Expr Exact}
    (ht : target.Settable (readingGrammar array)) : (target.place slotOf).location = target.location := by
  cases target with
  | element a i =>
    simp only [Expr.place]
    split
    · next label hl => exact absurd (hc a i label hl).1 ht
    · rfl
  | pointee | firstColumn => exact ht.1.elim
  | _ => rfl

/-- Statements that leave an array alone do the same with its slots in the place of its elements, from a memory
whose slots hold copies. -/
lemma simulates_place (hc : Copied array slotOf υ) : Simulates (fun σ τ => SameCells σ τ ∧ Kept array υ τ)
    (·.place slotOf) (Step.Fits (readingGrammar array)) fun _ => True where
  step s hs σ τ := by
    rintro ⟨h, hk⟩
    have hτ := hc.kept hk
    cases s with
    | assign indent target form value =>
      refine rel_run_assign indent form (location_place hτ hs.1) (value_place h hτ hs.2) fun p v hp => ?_
      obtain ⟨a, ha, i, rfl⟩ := location_fits id hs.1 hp
      rw [h a i]
      exact ⟨h.update _ _, hk.trans (kept_update ha i τ _)⟩
    | declare indent type names size value ending =>
      cases value with
      | none => exact .some ⟨h, hk⟩
      | some e =>
        refine rel_run_declare indent type size ending (value_place h hτ (hs.2.2 e rfl)) ⟨h, hk⟩ ?_
        rintro name hn σ τ v ⟨h, hk⟩
        have hne : name ≠ array := (hs.2.1 name hn).resolve_right And.right
        exact ⟨h.update _ v, hk.trans (kept_update hne none τ v)⟩
    | comment | blank | line => exact .some ⟨h, hk⟩
    | call => exact hs.1.elim
    | give => exact hs.elim
  condition c _ σ τ := by
    rintro ⟨h, -⟩
    unfold SameCells at h
    cases c <;> simp only [Condition.holds, h]

/-! ## Running loads -/

/-- Statements that load slots fill each with what its last one loads. -/
lemma runItems_loads (stores : List Holding) (τ : Memory) :
    ∃ τ', runItems τ (stores.map fun h => .step (loadStep h)) = some τ' ∧ SameCells τ τ' ∧
      ∀ label, τ' (.slot label) = (lastStore stores label).elim (τ (.slot label))
        fun h => τ (.cell h.location.array h.location.index) := by
  induction stores generalizing τ with
  | nil => exact ⟨τ, rfl, .refl τ, fun _ => rfl⟩
  | cons h stores ih =>
    set τ₁ : Memory := Function.update τ (.slot h.slot.address) (τ (.cell h.location.array h.location.index))
    have hc : SameCells τ τ₁ := fun _ _ => Function.update_of_ne (by simp) _ _
    have hf : (loadStep h).run τ = some τ₁ := run_assign 2 .set rfl (Factor.element _ _).value
    obtain ⟨τ', hr, hs, hsl⟩ := ih τ₁
    refine ⟨τ', ?_, hc.trans hs, fun label => ?_⟩
    · rw [map_cons, runItems, Item.run, hf, Option.bind_some, hr]
    have hsp : lastStore (h :: stores) label = (lastStore stores label).or (lastStore [h] label) :=
      lastStore_append [h] stores label
    rw [hsl, hsp]
    cases lastStore stores label with
    | some g => exact hc _ _
    | none =>
      by_cases hl : h.slot.address = label
      · simp [lastStore, hl, τ₁]
      · simp [lastStore, hl, τ₁, Ne.symm hl]

/-! ## Running placed items -/

/-- The elements of an array. -/
def cached (array : String) : Naming where
  key := id
  known l := ∃ k : ℤ, l = { array, index := some k }
  separate := by
    rintro _ _ ⟨j, rfl⟩ ⟨k, rfl⟩
    simp [Location.serves]

/-- A bank of elements of the array, whose slots hold copies. -/
structure Banked (array : String) (b : Bank) (τ : Memory) : Prop where
  sound : b.Sound (cached array)
  copies : ∀ s l, (s, l) ∈ b.table (cached array) → τ (.slot s.address) = τ (.cell l.array l.index)

namespace Banked

variable {b : Bank}

lemma copied (hb : Banked array b τ) : Copied array (Code.slotOf b) τ := by
  intro a i label hl
  obtain ⟨h, hf, rfl⟩ := Option.map_eq_some_iff.1 hl
  have hm : (h.slot, h.location) ∈ b.table (cached array) := mem_map_of_mem (mem_of_find?_eq_some hf)
  have hs : h.location.serves { array := a, index := i } = true := by
    simpa using List.find?_some hf
  obtain ⟨k, hk⟩ := hb.sound.known _ hm
  have hc := hb.copies _ _ hm
  rw [show h.location = { array, index := some k } from hk] at hs hc
  simp only [Location.serves, Option.isNone_some, Bool.false_or, Bool.and_eq_true, beq_iff_eq] at hs
  obtain ⟨rfl, rfl⟩ := hs
  exact ⟨rfl, hc⟩

lemma kept (hb : Banked array b τ) (hk : Kept array τ τ') : Banked array b τ' where
  sound := hb.sound
  copies := by
    intro s l hs
    obtain ⟨k, hl⟩ := hb.sound.known _ hs
    have hc := hb.copies s l hs
    rw [show l = { array, index := some k } from hl] at hc ⊢
    rw [hk.1, hk.2, hc]

lemma congr {b' : Bank} (hb : Banked array b τ) (hs : b'.Sound (cached array)) (ht : b'.table (cached array) = b.table (cached array)) :
    Banked array b' τ where
  sound := hs
  copies := by
    rw [ht]
    exact hb.copies

end Banked

lemma useAll_sound {N : Naming} {b : Bank} (hb : b.Sound N) (cells : List (String × Option Int)) :
    (useAll b cells).Sound N ∧ (useAll b cells).table N = b.table N := by
  induction cells generalizing b with
  | nil => exact ⟨hb, rfl⟩
  | cons c cells ih =>
    obtain ⟨hs, ht⟩ := ih (Bank.use_sound hb { array := c.1, index := c.2 })
    exact ⟨hs, ht.trans (Bank.table_use b _)⟩

def Item.isCall : Item Exact → Bool
  | .step (.call _ _ _ _) => true
  | _ => false

variable {items : List (Item Exact)}

lemma perform_eq_runItems (callees : Callees) (h : ∀ i ∈ items, i.isCall = false)
    (σ : Memory) : perform callees σ items = runItems σ items := by
  induction items generalizing σ with
  | nil => rfl
  | cons i rest ih =>
    rw [forall_mem_cons] at h
    have hi : i.perform callees σ = i.run σ := by
      unfold Item.perform
      split
      · cases h.1
      · rfl
    rw [perform, runItems, hi, funext fun τ => ih h.2 τ]

/-- Placing items with one bank gives another, and code without calls that goes along with the items. -/
structure Placed (array : String) (b : Bank) (items : List (Item Exact)) (b' : Bank)
    (placed : List (Item Exact)) : Prop where
  sound : b'.Sound (cached array)
  callless : ∀ i ∈ placed, i.isCall = false
  runs : ∀ σ τ, SameCells σ τ → Banked array b τ →
    Option.Rel (fun σ' τ' => SameCells σ' τ' ∧ Banked array b' τ') (runItems σ items) (runItems τ placed)

lemma placed_of_fits {b : Bank} (hb : b.Sound (cached array)) {i : Item Exact} (hi : i.Fits (readingGrammar array))
    (cells : List (String × Option Int)) :
    Placed array b [i] (useAll b cells) [i.translate (·.place (Code.slotOf b))] where
  sound := (useAll_sound hb cells).1
  callless := by
    rw [forall_mem_singleton]
    cases i with
    | step s =>
      cases s with
      | call => exact hi.1.elim
      | _ => rfl
    | _ => rfl
  runs := by
    intro σ τ hs hbn
    obtain ⟨hsn, ht⟩ := useAll_sound hb cells
    refine rel_bind ((simulates_place hbn.copied).item hi.steps (fun _ _ => trivial) ⟨hs, .refl array τ⟩) ?_
    rintro σ' τ' ⟨hs', hk⟩
    exact .some ⟨hs', (hbn.kept hk).congr hsn ht⟩

lemma loadSteps_eq (fresh : List (Holding × Bool)) :
    (fresh.filterMap fun x => if x.2 then some (Item.step (loadStep x.1) : Item Exact) else none) =
      ((fresh.filter (·.2)).map Prod.fst).map fun h => .step (loadStep h) := by
  induction fresh with
  | nil => rfl
  | cons x rest ih =>
    cases hx : x.2 <;> simp [hx, ih]

/-- Loading fills the slots of new elements and leaves those of the others as they are. -/
lemma placeItem_load {b : Bank} (hb : b.Sound (cached array)) {wanted : List ((String × Option Int) × Exact)}
    (hw : (Item.load wanted).Fits (readingGrammar array)) :
    ∃ b' placed, placeItem b (.load wanted) = .ok (b', placed) ∧ Placed array b [.load wanted] b' placed := by
  set locations : List (Location × Exact) := wanted.map fun w => ({ array := w.1.1, index := w.1.2 }, w.2)
  have hcc : ∀ r ∈ locations, (cached array).known r.1 := by
    intro r hr
    obtain ⟨w, hm, rfl⟩ := mem_map.1 hr
    obtain ⟨hsh, hin⟩ := hw w hm
    obtain ⟨k, hk⟩ := Option.ne_none_iff_exists'.1 hin
    exact ⟨k, by rw [show w.1.1 = array from hsh.resolve_left id, hk]⟩
  obtain ⟨loaded, hl, hsn, hf⟩ := Bank.load_fresh hb hcc
  refine ⟨loaded.bank, loaded.stored.map fun h => .step (loadStep h), ?_, hsn, ?_, ?_⟩
  · have hp : placeItem b (.load wanted) = b.load locations >>= fun loaded => pure (loaded.bank,
        loaded.fresh.filterMap fun x => if x.2 then some (Item.step (loadStep x.1)) else none) := rfl
    rw [hp, hl, ok_bind, loadSteps_eq]
    rfl
  · intro i hi
    obtain ⟨h, -, rfl⟩ := mem_map.1 hi
    rfl
  · intro σ τ hsm hbn
    obtain ⟨τ', hrn, hc, hsl⟩ := runItems_loads loaded.stored τ
    rw [hrn]
    refine .some ⟨hsm.trans hc, hsn, fun s l hs => ?_⟩
    rw [hsl, hc]
    rcases hf s l hs with ⟨h, hls, rfl⟩ | ⟨hn, hbf⟩
    · rw [hls]
      rfl
    · rw [hn]
      exact hbn.copies s l hbf

lemma placeItem_placed {b : Bank} (hb : b.Sound (cached array)) {i : Item Exact}
    (hi : i.Fits (readingGrammar array)) : ∃ b' placed, placeItem b i = .ok (b', placed) ∧ Placed array b [i] b' placed := by
  cases i with
  | step | split | choice => exact ⟨_, _, rfl, placed_of_fits hb hi _⟩
  | load wanted => exact placeItem_load hb hi
  | release => exact hi.elim
  | consult locations =>
    obtain ⟨hs, ht⟩ := useAll_sound hb locations
    refine ⟨_, _, rfl, hs, by simp, fun σ τ h hbn => ?_⟩
    exact .some ⟨h, hbn.congr hs ht⟩

/-- Items that leave an array alone can be placed with its elements in shared memory, and compute the same. -/
lemma placeItems_placed {b : Bank} (hb : b.Sound (cached array)) (hi : ∀ i ∈ items, i.Fits (readingGrammar array)) :
    ∃ b' placed, placeItems b items = .ok (b', placed) ∧ Placed array b items b' placed := by
  induction items generalizing b with
  | nil => exact ⟨b, [], rfl, hb, by simp, fun σ τ h hbn => .some ⟨h, hbn⟩⟩
  | cons i rest ih =>
    rw [forall_mem_cons] at hi
    obtain ⟨b₁, first, hf, h₁⟩ := placeItem_placed hb hi.1
    obtain ⟨b₂, others, ho, h₂⟩ := ih h₁.sound hi.2
    refine ⟨b₂, first ++ others, ?_, h₂.sound, ?_, ?_⟩
    · simp only [placeItems, hf, ok_bind, ho]
      rfl
    · intro j hj
      exact (mem_append.1 hj).elim (h₁.callless j) (h₂.callless j)
    · intro σ τ hs hbn
      rw [runItems_append, ← singleton_append, runItems_append]
      refine rel_bind (h₁.runs σ τ hs hbn) ?_
      rintro σ₁ τ₁ ⟨hs₁, hb₁⟩
      exact h₂.runs σ₁ τ₁ hs₁ hb₁

end

end Kinetics.Code
