import Kinetics.Accelerator.SharedMemory
import Kinetics.Proofs.Outcome
import Mathlib
/-!
# Slots of shared memory are never confused

A bank is in order if its held and its free slots are together the numbers of the
bank, each once, and if no location is held twice. Every operation keeps that. What a
load evicts was held and is not requested, what it adds is requested and was not held,
and the rest stays where it was (`Bank.load_loading`). A bank may have fewer marks than
slots; a load then stops where it needs a mark that is missing, and only then.
-/

open List

namespace Kinetics.Accelerator

/-! ## Addresses and locations -/

lemma Slot.address_injective {a b : ℕ} (h : (Slot.numbered a).address = (Slot.numbered b).address) : a = b := by
  -- the first slot has no sign where all others have one
  have hne : ∀ k, (Slot.numbered 0).address ≠ (Slot.numbered (k + 1)).address := by
    intro k hk
    have := congrArg (fun s : String => s.toList[23]?) hk
    simp [Slot.address] at this
  rcases a with _ | a <;> rcases b with _ | b
  · rfl
  · exact absurd h (hne b)
  · exact absurd h.symm (hne a)
  · exact Nat.repr_inj.1 (by simpa [Slot.address] using h)

/-- What tells locations apart: those with known keys serve for each other only if their keys agree. -/
structure Naming where
  key : Location → Location
  known : Location → Prop
  separate : ∀ l l', known (key l) → known (key l') → (l.serves l' = true ↔ key l = key l')

def Holding.entry (N : Naming) (h : Holding) : Slot × Location := (h.slot, N.key h.location)

/-! ## Missing marks -/

/-- A computation has a property, or it stops because something is missing, which happens only under a condition. -/
inductive Reaches {β : Type} (A : Prop) (P : β → Prop) : Except Fault β → Prop
  | ok {a : β} (h : P a) : Reaches A P (.ok a)
  | missing (h : A) : Reaches A P (.error .missingEntry)

section Reaches
variable {β γ : Type} {A : Prop} {P : β → Prop} {Q : γ → Prop} {x : Except Fault β}

namespace Reaches

lemma yields (h : Reaches A P x) : Yields P x := by
  cases h with
  | ok h => exact yields_ok.2 h
  | missing => exact yields_error _

lemma exists_ok (h : Reaches A P x) (hA : ¬A) : ∃ a, x = .ok a ∧ P a := by
  cases h with
  | ok h => exact ⟨_, rfl, h⟩
  | missing h => exact absurd h hA

lemma imp {B : Prop} {P' : β → Prop} (h : Reaches A P x) (hA : A → B) (hP : ∀ a, P a → P' a) : Reaches B P' x := by
  cases h with
  | ok h => exact .ok (hP _ h)
  | missing h => exact .missing (hA h)

lemma bind {f : β → Except Fault γ} (h : Reaches A P x) (hf : ∀ a, P a → Reaches A Q (f a)) :
    Reaches A Q (x >>= f) := by
  cases h with
  | ok h => exact hf _ h
  | missing h => exact .missing h

end Reaches

lemma reaches_foldlM {f : β → γ → Except Fault β} (xs : List γ)
    (hf : ∀ x ∈ xs, ∀ b, P b → Reaches A P (f b x)) {b : β} (hb : P b) : Reaches A P (xs.foldlM f b) := by
  induction xs generalizing b with
  | nil => exact .ok hb
  | cons x xs ih =>
    exact (hf x mem_cons_self b hb).bind fun _ hc => ih (fun y hy => hf y (mem_cons_of_mem _ hy)) hc

end Reaches

namespace Bank

/-! ## Banks in order -/

def table (N : Naming) (b : Bank) : List (Slot × Location) := b.held.map (Holding.entry N)

/-- The slots are each in one place and the locations are held once. If every slot has a mark of its own, only
held ones are marked. -/
structure Ordered (N : Naming) (b : Bank) : Prop where
  slots : ((b.table N).map Prod.fst ++ b.free).Perm ((List.range b.perThread.toNat).map Slot.numbered)
  locations : ((b.table N).map Prod.snd).Nodup
  known : ∀ e ∈ b.table N, N.known e.2
  marks_length : b.marks.length ≤ b.perThread.toNat
  marks_held : b.marks.length = b.perThread.toNat → ∀ k, b.marks[k]? = some true → ∃ l, (Slot.numbered k, l) ∈ b.table N

/-- Some slot has no mark. -/
abbrev Short (b : Bank) : Prop := b.marks.length < b.perThread.toNat

structure Sound (N : Naming) (b : Bank) : Prop extends Ordered N b where
  full : b.marks.length = b.perThread.toNat

variable {N : Naming} {b b' : Bank} {s s' : Slot} {l l' : Location}

lemma reset_sound (b : Bank) (w : Bool) : Sound N { b.reset with watched := w } where
  slots := .refl _
  locations := nodup_nil
  known := by simp [table, reset]
  marks_length := by simp [reset]
  marks_held := by
    intro _ k hk
    have := mem_of_getElem? hk
    simp [reset] at this
  full := by simp [reset]

namespace Ordered

lemma nodup (hb : b.Ordered N) : ((b.table N).map Prod.fst ++ b.free).Nodup := by
  rw [hb.slots.nodup_iff]
  exact nodup_range.map fun _ _ h => by cases h; rfl

lemma numbered_of_mem (hb : b.Ordered N) (h : s ∈ (b.table N).map Prod.fst ++ b.free) :
    ∃ k < b.perThread.toNat, s = .numbered k := by
  rw [hb.slots.mem_iff] at h
  obtain ⟨k, hk, rfl⟩ := mem_map.1 h
  exact ⟨k, mem_range.1 hk, rfl⟩

lemma numbered (hb : b.Ordered N) (h : (s, l) ∈ b.table N) : ∃ k < b.perThread.toNat, s = .numbered k :=
  hb.numbered_of_mem (mem_append_left _ (mem_map_of_mem h))

lemma number_lt (hb : b.Ordered N) (h : (s, l) ∈ b.table N) : s.number < b.perThread.toNat := by
  obtain ⟨k, hk, rfl⟩ := hb.numbered h
  exact hk

lemma location_unique (hb : b.Ordered N) (h : (s, l) ∈ b.table N) (h' : (s, l') ∈ b.table N) : l = l' :=
  congrArg Prod.snd (inj_on_of_nodup_map (nodup_append.1 hb.nodup).1 h h' rfl)

lemma slot_unique (hb : b.Ordered N) (h : (s, l) ∈ b.table N) (h' : (s', l) ∈ b.table N) : s = s' :=
  congrArg Prod.fst (inj_on_of_nodup_map hb.locations h h' rfl)

lemma eq_of_number (hb : b.Ordered N) (h : (s, l) ∈ b.table N) (h' : (s', l') ∈ b.table N)
    (hn : s.number = s'.number) : s = s' := by
  obtain ⟨k, -, rfl⟩ := hb.numbered h
  obtain ⟨k', -, rfl⟩ := hb.numbered h'
  exact congrArg _ hn

lemma congr (hb : b.Ordered N) (ht : b'.table N = b.table N) (hf : b'.free = b.free)
    (hp : b'.perThread = b.perThread) (hm : b'.marks = b.marks) : b'.Ordered N where
  slots := by rw [ht, hf, hp]; exact hb.slots
  locations := by rw [ht]; exact hb.locations
  known := by rw [ht]; exact hb.known
  marks_length := by rw [hm, hp]; exact hb.marks_length
  marks_held := by rw [hm, hp, ht]; exact hb.marks_held

lemma length_held_le (hb : b.Ordered N) : b.held.length ≤ b.perThread.toNat := by
  have hl := hb.slots.length_eq
  simp only [table, length_append, length_map, length_range] at hl
  omega

lemma table_of_full (hb : b.Ordered N) (hfl : b.held.length = b.perThread.toNat) {k : ℕ}
    (hk : k < b.perThread.toNat) : ∃ l, (Slot.numbered k, l) ∈ b.table N := by
  have hl := hb.slots.length_eq
  have hf : b.free = [] := by
    simp only [table, length_append, length_map, length_range] at hl
    exact eq_nil_of_length_eq_zero (by omega)
  have hm : Slot.numbered k ∈ (b.table N).map Prod.fst ++ b.free :=
    hb.slots.mem_iff.2 (mem_map_of_mem (mem_range.2 hk))
  rw [hf, append_nil] at hm
  obtain ⟨e, he, hs⟩ := mem_map.1 hm
  exact ⟨e.2, hs ▸ he⟩

lemma nodup_numbers (hb : b.Ordered N) : (b.held.map (·.slot.number)).Nodup := by
  have hn := (nodup_append.1 hb.nodup).1
  rw [table, map_map] at hn
  refine List.Nodup.of_map Slot.numbered ?_
  rw [map_map]
  refine (map_congr_left fun h hh => ?_) ▸ hn
  obtain ⟨k, -, hk⟩ := hb.numbered (mem_map_of_mem hh)
  simp only [Function.comp_apply, Holding.entry, hk, Slot.number]

end Ordered

/-! ## Looking up -/

def slotOf (b : Bank) (l : Location) : Option Slot := (b.find? l).map (·.slot)

lemma holds_iff (hb : b.Ordered N) (hl : N.known (N.key l)) : b.holds l = true ↔ ∃ s, (s, N.key l) ∈ b.table N := by
  simp only [holds, any_eq_true, table, mem_map, Holding.entry, Prod.mk.injEq]
  constructor
  · rintro ⟨h, hm, hs⟩
    exact ⟨h.slot, h, hm, rfl, (N.separate _ _ (hb.known _ (mem_map_of_mem hm)) hl).1 hs⟩
  · rintro ⟨s, h, hm, -, he⟩
    exact ⟨h, hm, (N.separate _ _ (he ▸ hl) hl).2 he⟩

lemma not_mem_of_holds (hb : b.Ordered N) (hl : N.known (N.key l)) (hno : b.holds l = false) (s : Slot) :
    (s, N.key l) ∉ b.table N := by
  intro hs
  rw [(holds_iff hb hl).2 ⟨s, hs⟩] at hno
  cases hno

lemma slotOf_eq_some (hb : b.Ordered N) (hl : N.known (N.key l)) :
    b.slotOf l = some s ↔ (s, N.key l) ∈ b.table N := by
  unfold slotOf
  cases hf : b.find? l with
  | some h =>
    have hm : h.entry N ∈ b.table N := mem_map_of_mem (mem_of_find?_eq_some hf)
    have hsr : h.location.serves l = true := by
      simpa using List.find?_some hf
    rw [Holding.entry, (N.separate _ _ (hb.known _ hm) hl).1 hsr] at hm
    constructor
    · rintro ⟨⟩
      exact hm
    · intro hs
      exact congrArg some (hb.slot_unique hm hs)
  | none =>
    have hno : b.holds l = false := by
      rw [holds, any_eq_false]
      exact List.find?_eq_none.1 hf
    exact iff_of_false (by simp) (not_mem_of_holds hb hl hno s)

lemma table_use (b : Bank) (l : Location) : (b.use l).table N = b.table N := by
  unfold use
  split
  · simp only [table, map_map]
    congr 1
    funext k
    simp only [Function.comp_apply]
    split <;> rfl
  · rfl

lemma use_fields (b : Bank) (l : Location) : (b.use l).free = b.free ∧ (b.use l).perThread = b.perThread ∧
    (b.use l).marks = b.marks ∧ (b.use l).watched = b.watched := by
  unfold use
  split <;> exact ⟨rfl, rfl, rfl, rfl⟩

lemma use_ordered (hb : b.Ordered N) (l : Location) : (b.use l).Ordered N :=
  have h := use_fields b l
  hb.congr (table_use b l) h.1 h.2.1 h.2.2.1

lemma use_sound (hb : b.Sound N) (l : Location) : (b.use l).Sound N where
  toOrdered := use_ordered hb.toOrdered l
  full := by
    rw [(use_fields b l).2.1, (use_fields b l).2.2.1]
    exact hb.full

/-! ## Giving up and taking slots -/

def without (b : Bank) (s : Slot) : Bank := { b with
    held := b.held.filter (·.slot.number != s.number)
    free := b.free ++ [s]
    marks := b.marks.set s.number false }

def adding (b : Bank) (s : Slot) (l : Location) : Bank :=
  { b with held := b.held ++ [{ slot := s, location := l }], free := b.free.dropLast }

lemma mem_table_without (hb : b.Ordered N) (hs : (s, l) ∈ b.table N) {e : Slot × Location} :
    e ∈ (b.without s).table N ↔ e ∈ b.table N ∧ e.1 ≠ s := by
  simp only [table, without, mem_map, mem_filter, bne_iff_ne]
  constructor
  · rintro ⟨h, ⟨hm, hne⟩, rfl⟩
    exact ⟨⟨h, hm, rfl⟩, fun heq => hne (congrArg Slot.number heq)⟩
  · rintro ⟨⟨h, hm, rfl⟩, hne⟩
    refine ⟨h, ⟨hm, fun hn => hne ?_⟩, rfl⟩
    exact hb.eq_of_number (mem_map_of_mem hm) hs hn

lemma table_without_sublist (N : Naming) (b : Bank) (s : Slot) : ((b.without s).table N).Sublist (b.table N) :=
  filter_sublist.map _

/-- Marks that are left after one was taken away. -/
lemma marks_without {k : ℕ} (h : (b.without s).marks[k]? = some true) : s.number ≠ k ∧ b.marks[k]? = some true := by
  simp only [without, List.getElem?_set] at h
  split at h
  · split at h <;> cases h
  · next hne => exact ⟨hne, h⟩

lemma without_ordered (hb : b.Ordered N) (hs : (s, l) ∈ b.table N) : (b.without s).Ordered N where
  slots := by
    refine List.Perm.trans ?_ hb.slots
    have hnew : (((b.without s).table N).map Prod.fst ++ (b.free ++ [s])).Nodup := by
      have hsub := (table_without_sublist N b s).map Prod.fst
      rw [← append_assoc, nodup_append]
      refine ⟨hb.nodup.sublist (hsub.append_right _), nodup_singleton _, ?_⟩
      rintro x hx y hy rfl
      rw [mem_singleton.1 hy] at hx
      rcases mem_append.1 hx with hx | hx
      · obtain ⟨e, he, rfl⟩ := mem_map.1 hx
        exact ((mem_table_without hb hs).1 he).2 rfl
      · exact (nodup_append.1 hb.nodup).2.2 _ (mem_map_of_mem hs) _ hx rfl
    refine (perm_ext_iff_of_nodup hnew hb.nodup).2 fun x => ?_
    simp only [mem_append, mem_map, mem_table_without hb hs, mem_singleton]
    constructor
    · rintro (⟨e, ⟨he, -⟩, rfl⟩ | hx | rfl)
      · exact .inl ⟨e, he, rfl⟩
      · exact .inr hx
      · exact .inl ⟨_, hs, rfl⟩
    · rintro (⟨e, he, rfl⟩ | hx)
      · by_cases heq : e.1 = s
        · exact .inr (.inr heq)
        · exact .inl ⟨e, ⟨he, heq⟩, rfl⟩
      · exact .inr (.inl hx)
  locations := hb.locations.sublist ((table_without_sublist N b s).map _)
  known := fun e he => hb.known e ((table_without_sublist N b s).subset he)
  marks_length := by
    rw [without, length_set]
    exact hb.marks_length
  marks_held := by
    intro hl k hk
    rw [without, length_set] at hl
    obtain ⟨hne, hk⟩ := marks_without hk
    obtain ⟨l', hl'⟩ := hb.marks_held hl k hk
    exact ⟨l', (mem_table_without hb hs).2 ⟨hl', fun h => hne (congrArg Slot.number h).symm⟩⟩

lemma evict_reaches (hb : b.Ordered N) (hs : (s, l) ∈ b.table N) : Reaches b.Short
    (fun r => ∃ h ∈ b.held, h.entry N = (s, l) ∧ r = (b.without s, if b.watched then [h] else [])) (b.evict s) := by
  obtain ⟨h₀, hm₀, he₀⟩ := mem_map.1 hs
  unfold evict
  cases hf : b.held.find? (·.slot.number == s.number) with
  | none =>
    have := List.find?_eq_none.1 hf h₀ hm₀
    cases he₀
    simp at this
  | some h =>
    have hm := mem_of_find?_eq_some hf
    have hn : h.slot.number = s.number := by simpa using List.find?_some hf
    have he : h.entry N ∈ b.table N := mem_map_of_mem hm
    have hsl : h.slot = s := hb.eq_of_number he hs hn
    subst hsl
    have hl : h.entry N = (h.slot, l) := congrArg _ (hb.location_unique he hs)
    by_cases hlt : h.slot.number < b.marks.length
    · simp only [setMark, if_pos hlt, ok_bind, pure_ok]
      exact .ok ⟨h, hm, hl, rfl⟩
    · simp only [setMark, if_neg hlt]
      exact .missing ((not_lt.1 hlt).trans_lt (hb.number_lt hs))

lemma evict_yields (hb : b.Ordered N) (n : ℕ) : Yields (fun r => ∃ h ∈ b.held, ∃ l, (Slot.numbered n, l) ∈ b.table N ∧
    r = (b.without (.numbered n), if b.watched then [h] else [])) (b.evict (.numbered n)) := by
  intro r hr
  obtain ⟨l, hl⟩ : ∃ l, (Slot.numbered n, l) ∈ b.table N := by
    unfold evict at hr
    split at hr
    · cases hr
    · next k hk =>
      have hm : k.entry N ∈ b.table N := mem_map_of_mem (mem_of_find?_eq_some hk)
      have hn : k.slot.number = n := by simpa [Slot.number] using List.find?_some hk
      obtain ⟨j, -, hj⟩ := hb.numbered hm
      rw [hj, Slot.number] at hn
      rw [Holding.entry, hj, hn] at hm
      exact ⟨_, hm⟩
  obtain ⟨h, hh, -, rfl⟩ := (evict_reaches hb hl).yields r hr
  exact ⟨h, hh, l, hl, rfl⟩

lemma table_adding (N : Naming) (b : Bank) (s : Slot) (l : Location) :
    (b.adding s l).table N = b.table N ++ [(s, N.key l)] := by
  simp [table, adding, Holding.entry]

lemma adding_ordered (hb : b.Ordered N) (hl : N.known (N.key l)) (hnew : ∀ s, (s, N.key l) ∉ b.table N)
    (hs : b.free.getLast? = some s) : (b.adding s l).Ordered N := by
  have hsp : b.free.dropLast ++ [s] = b.free := dropLast_append_getLast? s hs
  refine ⟨?_, ?_, ?_, hb.marks_length, ?_⟩
  · rw [table_adding]
    refine List.Perm.trans ?_ hb.slots
    conv_rhs => rw [← hsp]
    simp only [map_append, append_assoc]
    exact perm_append_comm.append_left _
  · rw [table_adding, map_append, nodup_append]
    refine ⟨hb.locations, nodup_singleton _, ?_⟩
    rintro x hx y hy rfl
    obtain ⟨e, he, rfl⟩ := mem_map.1 hx
    have hy : e.2 = N.key l := by simpa using hy
    exact hnew e.1 (hy ▸ he)
  · rw [table_adding]
    intro e he
    rcases mem_append.1 he with he | he
    · exact hb.known e he
    · rw [mem_singleton.1 he]
      exact hl
  · intro hf k hk
    obtain ⟨l', hl'⟩ := hb.marks_held hf k hk
    exact ⟨l', table_adding N b s l ▸ mem_append_left _ hl'⟩

lemma unheld_of_free (hb : b.Ordered N) (hs : s ∈ b.free) : b.held.any (·.slot.number == s.number) = false := by
  rw [any_eq_false]
  intro h hm hn
  have hmem : h.slot ∈ (b.table N).map Prod.fst := mem_map_of_mem (mem_map_of_mem hm)
  obtain ⟨k, -, hk⟩ := hb.numbered_of_mem (mem_append_left _ hmem)
  obtain ⟨j, -, rfl⟩ := hb.numbered_of_mem (mem_append_right _ hs)
  refine (nodup_append.1 hb.nodup).2.2 _ hmem _ hs ?_
  rw [hk] at hn ⊢
  exact congrArg _ (by simpa [Slot.number] using hn)

lemma take_ok (hb : b.Ordered N) (hl : N.known (N.key l)) (hnew : ∀ s, (s, N.key l) ∉ b.table N)
    (hr : b.isFull = false) : ∃ s, b.take l = .ok (b.adding s l) ∧ (b.adding s l).Ordered N := by
  have hfr : b.free ≠ [] := by
    have hlen := hb.slots.length_eq
    simp only [isFull, decide_eq_false_iff_not] at hr
    rintro hf
    simp only [table, length_append, length_map, length_range, hf, length_nil] at hlen
    omega
  obtain ⟨s, hs⟩ : ∃ s, b.free.getLast? = some s := ⟨_, List.getLast?_eq_some_getLast hfr⟩
  refine ⟨s, ?_, adding_ordered hb hl hnew hs⟩
  simp only [take, hs, unheld_of_free hb (mem_of_getLast? hs), Bool.false_eq_true, if_false, adding]

/-! ## Marks -/

variable {hs : List Holding} {h : Holding} {wanted : List Location}

/-- New marks of some holdings: requested ones end unmarked, and what ends marked was marked before or has waited. -/
structure Remarked (wanted : List Location) (hs : List Holding) (old new : List Bool) : Prop where
  length : new.length = old.length
  requested : ∀ h ∈ hs, wanted.any (·.serves h.location) = true →
    h.slot.number < old.length ∧ new[h.slot.number]? ≠ some true
  marked : ∀ k : ℕ, new[k]? = some true → old[k]? = some true ∨ ∃ h ∈ hs, h.slot.number = k ∧ 2 ≤ h.idle

lemma Remarked.cons {old mid new : List Bool} (h₁ : Remarked wanted [h] old mid) (h₂ : Remarked wanted hs mid new)
    (hn : ∀ k ∈ hs, k.slot.number ≠ h.slot.number) : Remarked wanted (h :: hs) old new where
  length := h₂.length.trans h₁.length
  requested := by
    refine forall_mem_cons.2 ⟨fun hr => ?_, fun k hk hr => ?_⟩
    · obtain ⟨hlt, hne⟩ := h₁.requested h mem_cons_self hr
      refine ⟨hlt, fun hm => ?_⟩
      obtain hm | ⟨k, hk, hkn, -⟩ := h₂.marked _ hm
      · exact hne hm
      · exact hn k hk hkn
    · rw [← h₁.length]
      exact h₂.requested k hk hr
  marked := by
    intro k hk
    obtain hm | ⟨x, hx, hxk⟩ := h₂.marked k hk
    · obtain hm | ⟨x, hx, hxk⟩ := h₁.marked k hm
      · exact .inl hm
      · exact .inr ⟨x, mem_cons.2 (.inl (mem_singleton.1 hx)), hxk⟩
    · exact .inr ⟨x, mem_cons_of_mem _ hx, hxk⟩

lemma markFor_reaches (wanted : List Location) (b : Bank) (h : Holding) :
    Reaches (b.marks.length ≤ h.slot.number)
      (fun c => ∃ marks, c = { b with marks } ∧ Remarked wanted [h] b.marks marks) (markFor wanted b h) := by
  have hset : ∀ mark, (mark = true → 2 ≤ h.idle ∧ wanted.any (·.serves h.location) = false) →
      Reaches (b.marks.length ≤ h.slot.number)
        (fun c => ∃ marks, c = { b with marks } ∧ Remarked wanted [h] b.marks marks) (b.setMark h.slot mark) := by
    intro mark hm
    unfold setMark
    split
    · next hlt =>
      refine .ok ⟨_, rfl, length_set .., forall_mem_singleton.2 fun hr => ⟨hlt, fun ht => ?_⟩, fun k hk => ?_⟩
      · rw [List.getElem?_set_self hlt] at ht
        rw [(hm (Option.some.inj ht)).2] at hr
        cases hr
      · by_cases hkn : h.slot.number = k
        · subst hkn
          rw [List.getElem?_set_self hlt] at hk
          exact .inr ⟨h, mem_cons_self, rfl, (hm (Option.some.inj hk)).1⟩
        · rw [List.getElem?_set_ne hkn] at hk
          exact .inl hk
    · next hlt => exact .missing (not_lt.1 hlt)
  unfold markFor
  dsimp only
  split
  · next hm =>
    rw [Bool.and_eq_true, decide_eq_true_iff, Bool.not_eq_true'] at hm
    exact hset true fun _ => hm
  · split
    · exact hset false fun hm => absurd hm Bool.false_ne_true
    · next hr => exact .ok ⟨b.marks, rfl, rfl, forall_mem_singleton.2 fun h => absurd h hr, fun _ => .inl⟩

lemma markFor_fold (wanted : List Location) {b : Bank} (hn : (hs.map (·.slot.number)).Nodup) :
    Reaches (∃ h ∈ hs, b.marks.length ≤ h.slot.number)
      (fun c => ∃ marks, c = { b with marks } ∧ Remarked wanted hs b.marks marks) (hs.foldlM (markFor wanted) b) := by
  induction hs generalizing b with
  | nil => exact .ok ⟨b.marks, rfl, rfl, forall_mem_nil _, fun _ => .inl⟩
  | cons h hs ih =>
    rw [map_cons, nodup_cons] at hn
    refine ((markFor_reaches wanted b h).imp (fun hh => ⟨h, mem_cons_self, hh⟩) fun _ => id).bind ?_
    rintro _ ⟨first, rfl, h₁⟩
    refine (ih hn.2).imp ?_ ?_
    · rintro ⟨k, hk, hkl⟩
      exact ⟨k, mem_cons_of_mem _ hk, h₁.length ▸ hkl⟩
    · rintro _ ⟨marks, rfl, h₂⟩
      exact ⟨marks, rfl, h₁.cons h₂ fun k hk hkn => hn.1 (mem_map.2 ⟨k, hk, hkn⟩)⟩

/-- The bank after all holdings have waited once more. -/
def waiting (b : Bank) (marks : List Bool) : Bank := { b with held := b.held.map Holding.wait, marks }

/-- The start of a load needs a mark for every slot that it marks, and changes nothing else. -/
lemma prepare_reaches (hb : b.Ordered N) (wanted : List Location) : Reaches b.Short (fun c => ∃ marks,
    c = b.waiting marks ∧ Remarked wanted (b.held.map Holding.wait) b.marks marks) (b.prepare wanted) := by
  refine (markFor_fold wanted ?_).imp ?_ fun _ => id
  · rw [map_map]
    exact hb.nodup_numbers
  · rintro ⟨h, hh, hl⟩
    obtain ⟨k, hk, rfl⟩ := mem_map.1 hh
    have hk : k.entry N ∈ b.table N := mem_map_of_mem hk
    exact hl.trans_lt (hb.number_lt hk)

/-- A load may give up what is marked and what has already waited for a load. -/
def Releasable (N : Naming) (b : Bank) (e : Slot × Location) : Prop :=
  b.marks[e.1.number]? = some true ∨ ∃ h ∈ b.held, h.entry N = e ∧ 1 ≤ h.idle

lemma table_waiting (N : Naming) (b : Bank) (marks : List Bool) : (b.waiting marks).table N = b.table N := by
  simp [table, waiting, Holding.wait, Holding.entry]

section Waiting
variable {marks : List Bool}

lemma waiting_ordered (hb : b.Ordered N) (hm : Remarked wanted (b.held.map Holding.wait) b.marks marks) :
    (b.waiting marks).Ordered N where
  slots := by rw [table_waiting]; exact hb.slots
  locations := by rw [table_waiting]; exact hb.locations
  known := by rw [table_waiting]; exact hb.known
  marks_length := hm.length.trans_le hb.marks_length
  marks_held := by
    intro hf k hk
    rw [table_waiting]
    obtain hk | ⟨x, hx, rfl, -⟩ := hm.marked k hk
    · exact hb.marks_held (hm.length.symm.trans hf) k hk
    · obtain ⟨h, hh, rfl⟩ := mem_map.1 hx
      have he : h.entry N ∈ b.table N := mem_map_of_mem hh
      obtain ⟨j, -, hj⟩ := hb.numbered he
      rw [Holding.entry, hj] at he
      exact ⟨_, by simpa [Holding.wait, hj, Slot.number] using he⟩

/-- What a load may give up once it has started: nothing that is requested. -/
lemma releasable_of_waiting (hb : b.Ordered N) (hw : ∀ l ∈ wanted, N.known (N.key l))
    (hm : Remarked wanted (b.held.map Holding.wait) b.marks marks) {k : ℕ} (hk : marks[k]? = some true)
    (hl : (Slot.numbered k, l) ∈ b.table N) : l ∉ wanted.map N.key ∧ b.Releasable N (Slot.numbered k, l) := by
  constructor
  · intro hlw
    obtain ⟨l', hl', rfl⟩ := mem_map.1 hlw
    obtain ⟨h, hh, he⟩ := mem_map.1 hl
    obtain ⟨hsl, hloc⟩ := Prod.mk.inj he
    have hsr : l'.serves h.location = true := (N.separate _ _ (hw l' hl') (hloc ▸ hw l' hl')).2 hloc.symm
    refine (hm.requested h.wait (mem_map_of_mem hh) (any_eq_true.2 ⟨l', hl', hsr⟩)).2 ?_
    rw [Holding.wait, hsl]
    exact hk
  · obtain hk | ⟨x, hx, hxk, hi⟩ := hm.marked k hk
    · exact .inl hk
    · obtain ⟨h, hh, rfl⟩ := mem_map.1 hx
      have he : (h.slot, N.key h.location) ∈ b.table N := mem_map_of_mem hh
      have hs : h.slot = .numbered k := hb.eq_of_number he hl hxk
      refine .inr ⟨h, hh, Prod.ext hs (hb.location_unique (hs ▸ he) hl), ?_⟩
      simp only [Holding.wait] at hi
      omega

end Waiting

lemma longestIdle_mem (hm : longestIdle hs = some h) : h ∈ hs := by
  have hf : ∀ (ks : List Holding) (best : Holding),
      ks.foldl (fun best k => if best.idle < k.idle then k else best) best ∈ best :: ks := by
    intro ks
    induction ks with
    | nil => exact fun best => mem_cons_self
    | cons k ks ih =>
      intro best
      rw [foldl_cons]
      split
      · exact mem_cons_of_mem _ (ih k)
      · exact cons_subset_cons best (subset_cons_self k ks) (ih best)
  cases hs with
  | nil => cases hm
  | cons k ks =>
    cases hm
    exact hf ks k

/-- The marked holdings can be listed if every held slot has a mark. -/
lemma marked_eq (b : Bank) : b.marked = if b.held.all (·.slot.number < b.marks.length) then
    .ok (b.held.filter fun h => b.marks[h.slot.number]? == some true) else .error .missingEntry := by
  unfold marked
  induction b.held with
  | nil => rfl
  | cons h hs ih =>
    rw [filterMapM_cons, ih, all_cons]
    by_cases hh : h.slot.number < b.marks.length
    · have hm := List.getElem?_eq_getElem hh
      rw [hm]
      cases hx : b.marks[h.slot.number] <;> cases ha : hs.all (·.slot.number < b.marks.length) <;>
        simp [hh, hx, bind, Except.bind, pure_ok]
    · rw [List.getElem?_eq_none (not_lt.1 hh)]
      simp only [hh, decide_false, Bool.false_and, Bool.false_eq_true, if_false]
      rfl

/-- Room is made in a bank with all its marks, and by giving up a marked holding. -/
lemma makeRoom_reaches (hb : b.Ordered N) : Reaches b.Short (fun r => r = (b, []) ∨ b.marks.length = b.perThread.toNat ∧
    ∃ (k : ℕ) (l : Location) (h : Holding), b.marks[k]? = some true ∧ (Slot.numbered k, l) ∈ b.table N ∧
      h.entry N = (Slot.numbered k, l) ∧ r = (b.without (.numbered k), if b.watched then [h] else [])) b.makeRoom := by
  unfold makeRoom
  cases hm : b.isFull && b.marks.contains true with
  | false => exact .ok (.inl rfl)
  | true =>
    rw [Bool.and_eq_true] at hm
    rw [if_pos rfl, evictLongestIdle, marked_eq]
    obtain hs | ha := hb.marks_length.lt_or_eq
    · -- all slots are held, and the last one has no mark
      have hf : b.held.length = b.perThread.toNat := by
        have hle := hb.length_held_le
        have hge : b.perThread ≤ (b.held.length : ℤ) := of_decide_eq_true hm.1
        omega
      obtain ⟨l, hl⟩ := hb.table_of_full hf (Nat.pred_lt_of_lt hs)
      obtain ⟨k, hk, he⟩ := mem_map.1 hl
      have hsl : k.slot = .numbered (b.perThread.toNat - 1) := congrArg Prod.fst he
      have hno : b.held.all (·.slot.number < b.marks.length) = false := by
        refine all_eq_false.2 ⟨k, hk, ?_⟩
        rw [hsl, Slot.number, decide_eq_true_iff]
        omega
      rw [if_neg (by simp [ne_nil_of_mem hk]), hno]
      exact .missing hs
    · have hall : b.held.all (·.slot.number < b.marks.length) = true :=
        all_eq_true.2 fun h hh => decide_eq_true (ha ▸ hb.number_lt (mem_map_of_mem hh))
      obtain ⟨k₀, hk₀⟩ := mem_iff_getElem?.1 (contains_iff_mem.1 hm.2)
      obtain ⟨l₀, hl₀⟩ := hb.marks_held ha k₀ hk₀
      obtain ⟨h₀, hh₀, he₀⟩ := mem_map.1 hl₀
      have hs₀ : h₀.slot = .numbered k₀ := congrArg Prod.fst he₀
      have hm₀ : h₀ ∈ b.held.filter fun h => b.marks[h.slot.number]? == some true :=
        mem_filter.2 ⟨hh₀, by rw [hs₀, Slot.number, hk₀]; rfl⟩
      obtain ⟨x, hx⟩ : ∃ x, longestIdle (b.held.filter fun h => b.marks[h.slot.number]? == some true) = some x := by
        cases hs : b.held.filter fun h => b.marks[h.slot.number]? == some true with
        | nil => rw [hs] at hm₀; cases hm₀
        | cons x xs => exact ⟨_, rfl⟩
      obtain ⟨hxm, hxt⟩ := mem_filter.1 (longestIdle_mem hx)
      have he : (x.slot, N.key x.location) ∈ b.table N := mem_map_of_mem hxm
      obtain ⟨k, -, hk⟩ := hb.numbered he
      rw [if_neg (by simp [ne_nil_of_mem hh₀]), hall, if_pos rfl, ok_bind, hx]
      dsimp only
      rw [hk] at he hxt ⊢
      refine (evict_reaches hb he).imp id ?_
      rintro r ⟨h, -, hen, rfl⟩
      exact .inr ⟨ha, k, _, h, beq_iff_eq.1 hxt, he, hen, rfl⟩

/-! ## Loads -/

/-- What a load has done so far, from the bank `start`, with the evictions `out`. -/
structure Loading (N : Naming) (start : Bank) (wanted : List Location) (b : Bank) (out : List Holding) : Prop where
  ordered : b.Ordered N
  watched : b.watched = start.watched
  perThread : b.perThread = start.perThread
  marks_length : b.marks.length = start.marks.length
  unwanted : b.marks.length = b.perThread.toNat →
    ∀ k l, b.marks[k]? = some true → (Slot.numbered k, l) ∈ b.table N → l ∉ wanted
  added : ∀ e ∈ b.table N, e ∈ start.table N ∨ e.2 ∈ wanted ∧ ∀ s, (s, e.2) ∉ start.table N
  kept : ∀ e ∈ start.table N, e ∈ b.table N ∨ e.2 ∉ wanted ∧ (start.watched = true → e ∈ out.map (Holding.entry N))
  evicted : ∀ e ∈ out.map (Holding.entry N), e ∈ start.table N ∧ e.2 ∉ wanted ∧ ∀ s, (s, e.2) ∉ b.table N
  once : (out.map fun h => N.key h.location).Nodup

namespace Loading

variable {start : Bank} {keep : List Location} {out : List Holding}

lemma short (hl : Loading N start keep b out) (hs : b.Short) : start.Short := by
  rw [Short, ← hl.marks_length, ← hl.perThread]
  exact hs

lemma sound (hl : Loading N start keep b out) (hs : start.Sound N) : b.Sound N where
  toOrdered := hl.ordered
  full := by rw [hl.marks_length, hl.perThread, hs.full]

lemma evict (hl : Loading N start keep b out) {k : ℕ} (hf : b.marks.length = b.perThread.toNat)
    (hmr : b.marks[k]? = some true) (hmem : (Slot.numbered k, l) ∈ b.table N)
    (he : h.entry N = (Slot.numbered k, l)) :
    Loading N start keep (b.without (.numbered k)) (out ++ if b.watched then [h] else []) := by
  have hu : l ∉ keep := hl.unwanted hf k l hmr hmem
  have hst : (Slot.numbered k, l) ∈ start.table N := by
    rcases hl.added _ hmem with h | h
    · exact h
    · exact absurd h.1 hu
  have hgn : ∀ s, (s, l) ∉ (b.without (.numbered k)).table N := by
    intro s hs
    obtain ⟨hs, hne⟩ := (mem_table_without hl.ordered hmem).1 hs
    exact hne (hl.ordered.slot_unique hs hmem)
  have hsub := (table_without_sublist N b (.numbered k)).subset
  refine ⟨without_ordered hl.ordered hmem, hl.watched, hl.perThread, (length_set ..).trans hl.marks_length,
    ?_, ?_, ?_, ?_, ?_⟩
  · exact fun _ j l' hj hm => hl.unwanted hf j l' (marks_without hj).2 (hsub hm)
  · exact fun e hm => hl.added e (hsub hm)
  · intro e hm
    rcases hl.kept e hm with hin | ⟨hw, hout⟩
    · by_cases hek : e.1 = .numbered k
      · obtain rfl : e = (Slot.numbered k, l) := Prod.ext hek (hl.ordered.location_unique (hek ▸ hin) hmem)
        refine .inr ⟨hu, fun hwt => ?_⟩
        simp [hl.watched, hwt, he]
      · exact .inl ((mem_table_without hl.ordered hmem).2 ⟨hin, hek⟩)
    · exact .inr ⟨hw, fun hwt => by simpa using .inl (by simpa using hout hwt)⟩
  · intro e hm
    rw [map_append, mem_append] at hm
    rcases hm with hm | hm
    · obtain ⟨h₁, h₂, h₃⟩ := hl.evicted e hm
      exact ⟨h₁, h₂, fun s hs => h₃ s (hsub hs)⟩
    · split at hm
      · rw [map_singleton, he, mem_singleton] at hm
        subst hm
        exact ⟨hst, hu, hgn⟩
      · cases hm
  · split
    · rw [map_append, nodup_append]
      refine ⟨hl.once, nodup_singleton _, ?_⟩
      rintro x hx y hy rfl
      obtain ⟨g, hg, rfl⟩ := mem_map.1 hx
      have hgl : N.key g.location = l := by
        rw [mem_singleton.1 hy]
        exact congrArg Prod.snd he
      exact (hl.evicted (g.entry N) (mem_map_of_mem hg)).2.2 (.numbered k) (by rwa [Holding.entry, hgl])
    · simpa using hl.once

lemma take (hl : Loading N start keep b out) (hw : N.key l ∈ keep) (hP : N.known (N.key l))
    (hnew : ∀ s, (s, N.key l) ∉ b.table N) (hr : b.isFull = false) :
    ∃ b', b.take l = .ok b' ∧ Loading N start keep b' out := by
  obtain ⟨s, htk, hs⟩ := take_ok hl.ordered hP hnew hr
  have ht := table_adding N b s l
  refine ⟨_, htk, hs, hl.watched, hl.perThread, hl.marks_length, ?_, ?_, ?_, ?_, hl.once⟩
  · intro hf k l' hk hm
    rw [ht, mem_append, mem_singleton] at hm
    rcases hm with hm | hm
    · exact hl.unwanted hf k l' hk hm
    · -- a marked slot is held, so it is not the one just taken
      obtain ⟨rfl, rfl⟩ := Prod.mk.inj hm
      obtain ⟨l₀, hl₀⟩ := hl.ordered.marks_held hf k hk
      have h₁ : (Slot.numbered k, l₀) ∈ (b.adding (.numbered k) l).table N := ht ▸ mem_append_left _ hl₀
      have h₂ : (Slot.numbered k, N.key l) ∈ (b.adding (.numbered k) l).table N :=
        ht ▸ mem_append_right _ (mem_singleton.2 rfl)
      exact absurd (hs.location_unique h₁ h₂ ▸ hl₀) (hnew _)
  · intro e hm
    rw [ht, mem_append, mem_singleton] at hm
    rcases hm with hm | rfl
    · exact hl.added e hm
    · refine .inr ⟨hw, fun s' hs' => ?_⟩
      rcases hl.kept _ hs' with hin | hout
      · exact hnew s' hin
      · exact hout.1 hw
  · intro e hm
    rcases hl.kept e hm with hin | hout
    · exact .inl (ht ▸ mem_append_left _ hin)
    · exact .inr hout
  · intro e hm
    obtain ⟨h₁, h₂, h₃⟩ := hl.evicted e hm
    refine ⟨h₁, h₂, fun s' hs' => ?_⟩
    rw [ht, mem_append, mem_singleton] at hs'
    rcases hs' with hs' | hs'
    · exact h₃ s' hs'
    · exact h₂ ((Prod.mk.inj hs').2 ▸ hw)

lemma takeIfRoom (hl : Loading N start keep b out) (hw : N.key l ∈ keep) (hP : N.known (N.key l))
    (hnew : ∀ s, (s, N.key l) ∉ b.table N) :
    Reaches start.Short (Loading N start keep · out) (b.takeIfRoom l) := by
  unfold Bank.takeIfRoom
  cases hf : b.isFull with
  | true => exact .ok hl
  | false =>
    obtain ⟨b', ht, hb'⟩ := hl.take hw hP hnew hf
    rw [if_neg Bool.false_ne_true, ht]
    exact .ok hb'

lemma makeRoom (hl : Loading N start keep b out) : Reaches start.Short
    (fun r => Loading N start keep r.1 (out ++ r.2) ∧ r.1.table N ⊆ b.table N) b.makeRoom := by
  refine (makeRoom_reaches hl.ordered).imp hl.short ?_
  rintro r (rfl | ⟨hf, k, l, h, hmr, hmem, he, rfl⟩)
  · exact ⟨by simpa using hl, List.Subset.refl _⟩
  · exact ⟨hl.evict hf hmr hmem he, (table_without_sublist N b _).subset⟩

lemma acceptRest (hl : Loading N start keep b out) (hw : N.key l ∈ keep) (hP : N.known (N.key l)) :
    Reaches start.Short (Loading N start keep · out) (b.acceptRest l) := by
  unfold Bank.acceptRest
  cases hsk : b.holds l with
  | true => exact .ok hl
  | false => exact hl.takeIfRoom hw hP (not_mem_of_holds hl.ordered hP hsk)

variable {α : Type} [Arithmetic α]

lemma accept {state : Bank × List Holding} (hl : Loading N start keep state.1 state.2) {request : Location × α}
    (hw : N.key request.1 ∈ keep) (hP : N.known (N.key request.1)) :
    Reaches start.Short (fun r : Bank × List Holding => Loading N start keep r.1 r.2) (Bank.accept state request) := by
  unfold Bank.accept
  dsimp only
  split
  · exact .ok hl
  · next hsk =>
    have hno := (Bool.or_eq_false_iff.1 (Bool.eq_false_iff.2 hsk)).1
    refine hl.makeRoom.bind fun r hr => ?_
    refine (hr.1.takeIfRoom hw hP fun s hs => ?_).bind fun c hc => .ok hc
    exact not_mem_of_holds hl.ordered hP hno s (hr.2 hs)

/-- A location stays in its slot, or it is evicted, or it was not held. -/
lemma cases (hl : Loading N start keep b out) (hw : start.watched = true) (l : Location) :
    (∃ s, (s, l) ∈ start.table N ∧ (s, l) ∈ b.table N ∧ ∀ h ∈ out, N.key h.location ≠ l) ∨
      (∃ h ∈ out, N.key h.location = l ∧ (h.slot, l) ∈ start.table N ∧ ∀ s, (s, l) ∉ b.table N) ∨
      ((∀ s, (s, l) ∉ start.table N) ∧ ∀ h ∈ out, N.key h.location ≠ l) := by
  have hev : ∀ h ∈ out, N.key h.location = l → (h.slot, l) ∈ start.table N ∧ ∀ s, (s, l) ∉ b.table N := by
    rintro h hh rfl
    obtain ⟨h₁, -, h₂⟩ := hl.evicted (h.entry N) (mem_map_of_mem hh)
    exact ⟨h₁, h₂⟩
  by_cases hhl : ∃ s, (s, l) ∈ start.table N
  · obtain ⟨s, hs⟩ := hhl
    rcases hl.kept _ hs with hin | ⟨-, hout⟩
    · exact .inl ⟨s, hs, hin, fun h hh heq => (hev h hh heq).2 s hin⟩
    · obtain ⟨h, hh, he⟩ := mem_map.1 (hout hw)
      have hloc : N.key h.location = l := congrArg Prod.snd he
      exact .inr (.inl ⟨h, hh, hloc, hev h hh hloc⟩)
  · have hnot : ∀ s, (s, l) ∉ start.table N := fun s hs => hhl ⟨s, hs⟩
    exact .inr (.inr ⟨hnot, fun h hh heq => hnot _ (hev h hh heq).1⟩)

end Loading

section Load
variable {α : Type} [Arithmetic α]

variable {xs : List (Location × α)}

lemma mem_insertByUse {x y : Location × α} (h : y ∈ insertByUse x xs) : y = x ∨ y ∈ xs := by
  induction xs with
  | nil => exact .inl (mem_singleton.1 h)
  | cons z xs ih =>
    unfold insertByUse at h
    split at h
    · exact mem_cons.1 h
    · rcases mem_cons.1 h with rfl | h
      · exact .inr mem_cons_self
      · exact (ih h).imp_right (mem_cons_of_mem _)

lemma mem_of_mem_sortByUse {x : Location × α} (h : x ∈ sortByUse xs) : x ∈ xs := by
  have hf : ∀ ys sorted : List (Location × α),
      x ∈ ys.foldl (fun sorted x => insertByUse x sorted) sorted → x ∈ ys ∨ x ∈ sorted := by
    intro ys
    induction ys with
    | nil => exact fun _ h => .inr h
    | cons y ys ih =>
      intro sorted h
      rcases ih _ h with h | h
      · exact .inl (mem_cons_of_mem _ h)
      · rcases mem_insertByUse h with rfl | h
        · exact .inl mem_cons_self
        · exact .inr h
  simpa using hf xs [] h

variable {keep : List Location} {wanted : List (Location × α)}

/-- A load keeps whatever holdings it may not give up, beside what is requested. -/
lemma load_keeping (hb : b.Ordered N) (hw : ∀ r ∈ wanted, N.known (N.key r.1))
    (hsub : (wanted.map (·.1)).map N.key ⊆ keep)
    (hkp : ∀ e ∈ b.table N, e.2 ∉ (wanted.map (·.1)).map N.key → b.Releasable N e → e.2 ∉ keep) :
    Reaches b.Short (fun loaded => ∃ b' out, loaded = outcome b b' out ∧ Loading N b keep b' out) (b.load wanted) := by
  have hP : ∀ l ∈ wanted.map (·.1), N.known (N.key l) := by
    rintro l hl
    obtain ⟨r, hr, rfl⟩ := mem_map.1 hl
    exact hw r hr
  have hsr : ∀ r ∈ sortByUse wanted, N.key r.1 ∈ keep ∧ N.known (N.key r.1) := fun r hr =>
    ⟨hsub (mem_map_of_mem (mem_map_of_mem (mem_of_mem_sortByUse hr))), hw r (mem_of_mem_sortByUse hr)⟩
  refine (prepare_reaches hb _).bind ?_
  rintro _ ⟨marks, rfl, hm⟩
  have ht := table_waiting N b marks
  have h₀ : Loading N b keep (b.waiting marks) [] := by
    refine ⟨waiting_ordered hb hm, rfl, rfl, hm.length, ?_, fun e he => .inl (ht ▸ he), fun e he => .inl (ht ▸ he),
      by simp, by simp⟩
    intro _ k l hk hl
    rw [ht] at hl
    obtain ⟨hno, hrel⟩ := releasable_of_waiting hb hP hm hk hl
    exact hkp _ hl hno hrel
  refine (reaches_foldlM (P := fun s : Bank × List Holding => Loading N b keep s.1 s.2) _
    (fun r hr s hl => hl.accept (hsr r hr).1 (hsr r hr).2) h₀).bind fun middle hl => ?_
  refine (reaches_foldlM (P := (Loading N b keep · middle.2)) _
    (fun r hr c hc => hc.acceptRest (hsr r hr).1 (hsr r hr).2) hl).bind fun last hl => ?_
  exact .ok ⟨last, middle.2, rfl, hl⟩

lemma load_loading (hb : b.Ordered N) (hw : ∀ r ∈ wanted, N.known (N.key r.1)) : Reaches b.Short (fun loaded =>
    ∃ b' out, loaded = outcome b b' out ∧ Loading N b ((wanted.map (·.1)).map N.key) b' out) (b.load wanted) :=
  load_keeping hb hw (List.Subset.refl _) fun _ _ hno _ => hno

/-- The slots that a load filled anew are those of locations that were not held. -/
lemma number_mem_fresh {out : List Holding} (hb : b.Ordered N) (hb' : b'.Ordered N) (hs : (s, l) ∈ b'.table N) :
    s.number ∈ ((outcome b b' out).fresh.filter (·.2)).map (·.1.slot.number) ↔ ∀ s', (s', l) ∉ b.table N := by
  simp only [outcome, mem_map, mem_filter]
  constructor
  · rintro ⟨_, ⟨⟨h, hh, rfl⟩, hnew⟩, hnum⟩ s' hs'
    have hmem : (h.slot, N.key h.location) ∈ b'.table N := mem_map_of_mem hh
    have hsl := hb'.eq_of_number hmem hs hnum
    have hloc : N.key h.location = l := hb'.location_unique (hsl ▸ hmem) hs
    have hhl := (holds_iff hb (hb'.known _ hmem)).2 ⟨s', hloc ▸ hs'⟩
    simp [hhl] at hnew
  · intro hnot
    obtain ⟨h, hh, he⟩ := mem_map.1 hs
    obtain ⟨rfl, rfl⟩ := Prod.mk.inj he
    refine ⟨(h, !b.holds h.location), ⟨⟨h, hh, rfl⟩, ?_⟩, rfl⟩
    have : b.holds h.location = false := Bool.eq_false_iff.2 fun hhl =>
      ((holds_iff hb (hb'.known _ hs)).1 hhl).elim hnot
    simp [this]

end Load

lemma evictAll_reaches (hb : b.Ordered N) : Reaches b.Short (fun r => r.1.Ordered N ∧ r.1.perThread = b.perThread ∧
    r.1.marks.length = b.marks.length ∧ r.1.held = [] ∧ r.2 = if b.watched then b.held else []) b.evictAll := by
  suffices h : ∀ (hs out : List Holding) (b : Bank), b.Ordered N → b.held = hs →
      Reaches b.Short (fun r => r.1.Ordered N ∧ r.1.perThread = b.perThread ∧ r.1.marks.length = b.marks.length ∧
        r.1.held = [] ∧ r.2 = out ++ if b.watched then hs else []) (hs.foldlM evictNext (b, out)) by
    exact h b.held [] b hb rfl
  intro hs
  induction hs with
  | nil => exact fun out b hb hh => .ok ⟨hb, rfl, rfl, hh, by simp⟩
  | cons h hs ih =>
    intro out b hb hh
    have hm : h ∈ b.held := hh ▸ mem_cons_self
    have hmem : (h.slot, N.key h.location) ∈ b.table N := mem_map_of_mem hm
    have hn := hb.nodup_numbers
    have hr : (b.without h.slot).held = hs := by
      rw [hh, map_cons, nodup_cons] at hn
      rw [without, hh, filter_cons_of_neg (by simp), filter_eq_self]
      exact fun k hk => bne_iff_ne.2 fun hnum => hn.1 (mem_map.2 ⟨k, hk, hnum⟩)
    refine Reaches.bind (P := (· = (b.without h.slot, out ++ if b.watched then [h] else []))) ?_ ?_
    · refine (evict_reaches hb hmem).bind ?_
      rintro _ ⟨h', hh', he, rfl⟩
      have hf : h' = h := inj_on_of_nodup_map hn hh' hm (congrArg (·.1.number) he)
      exact .ok (by rw [hf])
    · rintro _ rfl
      have hb' := ih (out ++ if b.watched then [h] else []) _ (without_ordered hb hmem) hr
      refine hb'.imp (fun hs => by simpa [Short, without] using hs) ?_
      rintro r ⟨h₁, h₂, h₃, h₄, h₅⟩
      refine ⟨h₁, h₂, h₃.trans (length_set ..), h₄, h₅.trans ?_⟩
      cases hw : b.watched <;> simp [without, hw]

end Bank

end Kinetics.Accelerator
