import Kinetics.Proofs.SlotDiscipline
/-!
# Sequences of calls to a bank

A bank is loaded, marked, read and emptied by calls (`Call`), and a sequence of
calls leaves a record (`Event`). Marks are set by rank and read by slot, so a bank
may have too few of them; an eviction then stops the call. A call that gives a
result keeps the bank in order and moves no requested location, and every location
that is held after it was held before it or is stored by it (`Event.Sound`,
`Bank.calls_sound`).
-/

open List

namespace Kinetics.Accelerator

/-- The location as it is written for the accelerator. -/
def Location.plain (l : Location) : Location := { l with language := .cuda }

variable {α : Type}

/-! ## Calls -/

/-- A call to a bank. -/
inductive Call (α : Type) where
  | load (wanted : List Location) (uses : List α)
  | mark (locations : List Location)
  | access (l : Location)
  | evict (n : ℕ)
  | evictAll

namespace Call

def locations : Call α → List Location
  | .load wanted _ => wanted
  | .mark locations => locations
  | .access l => [l]
  | .evict _ => []
  | .evictAll => []

def requested : Call α → List Location
  | .load wanted _ => wanted
  | _ => []

/-- The number of marks that a call leaves in a bank, if it sets new ones. -/
def marking? (c : Call α) (b : Bank) : Option ℕ := match c with
  | .mark _ => some b.held.length
  | _ => none

end Call

/-- A call that gave a result, with the reported evictions and the slots whose loading is written. -/
structure Event (α : Type) where
  before : Bank
  call : Call α
  after : Bank
  evicted : List Holding := []
  stored : List Holding := []

/-- The number of marks that a call left in the bank, if it set new ones. -/
def Event.marking? (e : Event α) : Option ℕ := e.call.marking? e.before

/-- The addresses in shared memory that a call prints. -/
def Event.addresses (e : Event α) : List String := (e.stored ++ e.evicted).map (·.slot.address) ++ match e.call with
    | .access l => if e.before.holds l then [(e.before.access l).2] else []
    | _ => []

def Bank.Loaded.stored (l : Bank.Loaded) : List Holding := (l.fresh.filter (·.2)).map (·.1)

namespace Bank

section Calls
variable [Arithmetic α]

def call (b : Bank) (c : Call α) : Except Fault (Event α) := match c with
  | .load wanted uses => do
    let loaded ← b.request wanted (some uses)
    return { before := b, call := c, after := loaded.bank, evicted := loaded.evicted, stored := loaded.stored }
  | .mark locations => .ok { before := b, call := c, after := b.mark locations }
  | .access l => .ok { before := b, call := c, after := (b.access l).1 }
  | .evict n => do
    let r ← b.evict (.numbered n)
    return { before := b, call := c, after := r.1, evicted := r.2 }
  | .evictAll => do
    let r ← b.evictAll
    return { before := b, call := c, after := r.1, evicted := r.2 }

/-- One more call, added to the record of the earlier ones. -/
def follow (s : Bank × List (Event α)) (c : Call α) : Except Fault (Bank × List (Event α)) := do
  let e ← s.1.call c
  return (e.after, s.2 ++ [e])

/-- Calls one after the other: the last bank, and the record of all calls. -/
def calls (b : Bank) (cs : List (Call α)) : Except Fault (Bank × List (Event α)) := cs.foldlM follow (b, [])

end Calls

end Bank

namespace Bank

lemma mark_ordered {N : Naming} {b : Bank} (hb : b.Ordered N) (locations : List Location) :
    (b.mark locations).Ordered N where
  slots := hb.slots
  locations := hb.locations
  known := hb.known
  marks_length := by
    rw [mark, length_map]
    exact hb.length_held_le
  marks_held := by
    intro hf k hk
    rw [mark, length_map] at hf
    obtain ⟨hlt, -⟩ := List.getElem?_eq_some_iff.1 hk
    rw [mark, length_map] at hlt
    exact hb.table_of_full hf (hf ▸ hlt)

end Bank

/-! ## What a call keeps -/

/-- What is known of a call: the bank stays in order, requested locations stay where they are, and every location
that is held after the call was there before it or is stored by it. -/
structure Event.Sound (N : Naming) (e : Event α) : Prop where
  named : ∀ l ∈ e.call.requested, N.known (N.key l)
  before : e.before.Ordered N
  after : e.after.Ordered N
  size : e.after.perThread = e.before.perThread
  marks_length : e.after.marks.length = e.marking?.getD e.before.marks.length
  kept : ∀ x ∈ e.before.table N, x.2 ∈ e.call.requested.map N.key → x ∈ e.after.table N
  evicted : ∀ h ∈ e.evicted, h.entry N ∈ e.before.table N ∧ N.key h.location ∉ e.call.requested.map N.key
  stored : ∀ h ∈ e.stored, h ∈ e.after.held
  explained : ∀ x ∈ e.after.table N, x ∈ e.before.table N ∨ x ∈ e.stored.map (Holding.entry N)

variable {c : Call α} {N : Naming}

lemma Event.Sound.of_subset {b b' : Bank} {out : List Holding} (hb : b.Ordered N) (hb' : b'.Ordered N)
    (hs : b'.perThread = b.perThread) (hc : c.requested = [])
    (hm : b'.marks.length = (c.marking? b).getD b.marks.length) (hsb : b'.table N ⊆ b.table N)
    (ho : out ⊆ b.held) : Event.Sound N { before := b, call := c, after := b', evicted := out } where
  named := by simp [hc]
  before := hb
  after := hb'
  size := hs
  marks_length := hm
  kept := by simp [hc]
  evicted := fun k hk => ⟨mem_map_of_mem (ho hk), by simp [hc]⟩
  stored := by simp
  explained := fun x hx => .inl (hsb hx)

variable {cs : List (Call α)}

namespace Bank

variable {b b' : Bank}

lemma mem_stored_outcome {out : List Holding} {h : Holding} :
    h ∈ (outcome b b' out).stored ↔ h ∈ b'.held ∧ b.holds h.location = false := by
  simp [Loaded.stored, outcome]

variable [Arithmetic α]

lemma load_event (hb : b.Ordered N) {wanted : List Location} {uses : List α} (hw : ∀ l ∈ wanted, N.known (N.key l)) :
    Yields (Event.Sound N) (b.call (.load wanted uses)) := by
  unfold call request
  dsimp only
  split
  · exact yields_error _
  · next hln =>
    have hn : (wanted.zip uses).map (·.1) = wanted := map_fst_zip (not_lt.1 hln)
    refine (load_loading hb fun r hr => hw _ (hn ▸ mem_map_of_mem hr)).yields.bind ?_
    rintro loaded ⟨b', out, rfl, hl⟩
    rw [hn] at hl
    refine yields_pure.2 ⟨hw, hb, hl.ordered, hl.perThread, hl.marks_length, ?_, ?_, ?_, ?_⟩
    · intro x hx hrq
      rcases hl.kept x hx with hin | ⟨hno, -⟩
      · exact hin
      · exact absurd hrq hno
    · intro h hh
      obtain ⟨hst, hno, -⟩ := hl.evicted (h.entry N) (mem_map_of_mem hh)
      exact ⟨hst, hno⟩
    · exact fun h hh => (mem_stored_outcome.1 hh).1
    · intro x hx
      rcases hl.added x hx with hin | ⟨-, hnw⟩
      · exact .inl hin
      · obtain ⟨h, hh, rfl⟩ := mem_map.1 hx
        refine .inr (mem_map_of_mem (mem_stored_outcome.2 ⟨hh, ?_⟩))
        refine Bool.eq_false_iff.2 fun hhd => ?_
        obtain ⟨s, hs⟩ := (holds_iff hb (hl.ordered.known _ hx)).1 hhd
        exact hnw s hs

lemma call_before (b : Bank) (c : Call α) : Yields (fun e => e.before = b ∧ e.call = c) (b.call c) := by
  cases c with
  | load wanted uses => exact yields_bind fun _ => yields_pure.2 ⟨rfl, rfl⟩
  | mark ls => exact yields_ok.2 ⟨rfl, rfl⟩
  | access l => exact yields_ok.2 ⟨rfl, rfl⟩
  | evict n => exact yields_bind fun _ => yields_pure.2 ⟨rfl, rfl⟩
  | evictAll => exact yields_bind fun _ => yields_pure.2 ⟨rfl, rfl⟩

lemma call_sound (hb : b.Ordered N) (hc : ∀ l ∈ c.locations, N.known (N.key l)) :
    Yields (Event.Sound N) (b.call c) := by
  cases c with
  | load wanted uses => exact load_event hb hc
  | mark ls =>
    exact yields_ok.2 (.of_subset hb (mark_ordered hb ls) rfl rfl (length_map ..) (List.Subset.refl _) (nil_subset _))
  | access l =>
    have ha : (b.access l).1 = b.use l := by
      unfold access use
      cases b.find? l <;> rfl
    obtain ⟨-, hs, hm, -⟩ := use_fields b l
    unfold call
    dsimp only
    rw [ha]
    refine yields_ok.2 (.of_subset hb (use_ordered hb l) hs rfl (congrArg _ hm) ?_ (nil_subset _))
    rw [table_use]
    exact List.Subset.refl _
  | evict n =>
    refine (evict_yields hb n).bind ?_
    rintro _ ⟨h, hh, l, hl, rfl⟩
    refine yields_pure.2 (.of_subset hb (without_ordered hb hl) rfl rfl (length_set ..)
      (table_without_sublist N b _).subset ?_)
    dsimp only
    split
    · exact cons_subset.2 ⟨hh, nil_subset _⟩
    · exact nil_subset _
  | evictAll =>
    refine (evictAll_reaches hb).yields.bind ?_
    rintro r ⟨ho, hs, hm, hh, hr⟩
    refine yields_pure.2 (.of_subset hb ho hs rfl hm ?_ ?_)
    · rw [table, hh]
      exact nil_subset _
    · rw [hr]
      split
      · exact List.Subset.refl _
      · exact nil_subset _

/-- Every call of a sequence keeps the bank in order. The number of marks is that of the last marking. -/
lemma calls_sound (hb : b.Ordered N) (hcs : ∀ c ∈ cs, ∀ l ∈ c.locations, N.known (N.key l)) :
    Yields (fun r : Bank × List (Event α) => r.1.Ordered N ∧ r.1.perThread = b.perThread ∧
      r.1.marks.length = (r.2.filterMap Event.marking?).getLast?.getD b.marks.length ∧
      ∀ e ∈ r.2, e.Sound N ∧ e.after.perThread = b.perThread) (b.calls cs) := by
  refine yields_foldlM_mem cs ?_ ⟨hb, rfl, rfl, by simp⟩
  rintro c hc s ⟨hs, hsz, hmr, hl⟩ r hr
  obtain ⟨e, he, hen⟩ := bind_eq_ok.1 hr
  cases hen
  have hsn := call_sound hs (hcs c hc) e he
  have hbf := (call_before s.1 c e he).1
  have ha : e.after.perThread = b.perThread := by rw [hsn.size, hbf, hsz]
  refine ⟨hsn.after, ha, ?_, fun x hx => ?_⟩
  · rw [hsn.marks_length, hbf, hmr]
    cases hm : e.marking? with
    | none => simp [hm]
    | some n => simp [hm]
  · rcases mem_append.1 hx with hx | hx
    · exact hl x hx
    · rw [mem_singleton.1 hx]
      exact ⟨hsn, ha⟩

end Bank

/-! ## After a reset -/

/-- Every array is named with an index throughout, or without one. -/
def Uniform (ls : List Location) : Prop := ∀ l ∈ ls, ∀ l' ∈ ls, l.array = l'.array → (l.index = none ↔ l'.index = none)

instance (ls : List Location) : Decidable (Uniform ls) :=
  inferInstanceAs (Decidable (∀ l ∈ ls, ∀ l' ∈ ls, l.array = l'.array → (l.index = none ↔ l'.index = none)))

variable {ls : List Location}

/-- Locations are told apart whatever their languages are. -/
def Uniform.naming (h : Uniform ls) : Naming where
  key := Location.plain
  known := (· ∈ ls.map Location.plain)
  separate := by
    intro l l' hl hl'
    obtain ⟨p, hp, hpl⟩ := mem_map.1 hl
    obtain ⟨p', hp', hpl'⟩ := mem_map.1 hl'
    have hi := h p hp p' hp'
    obtain ⟨ha, hx, -⟩ := Location.mk.inj hpl
    obtain ⟨ha', hx', -⟩ := Location.mk.inj hpl'
    rw [ha, ha', hx, hx'] at hi
    simp only [Location.serves, Location.plain, Bool.and_eq_true, Bool.or_eq_true, beq_iff_eq,
      Option.isNone_iff_eq_none, Location.mk.injEq, and_true]
    constructor
    · rintro ⟨ha, hn | hs⟩
      · exact ⟨ha, hn.trans ((hi ha).1 hn).symm⟩
      · exact ⟨ha, hs⟩
    · rintro ⟨ha, hs⟩
      exact ⟨ha, .inr hs⟩

/-- Calls to a bank that was reset, whatever the languages of the locations are. -/
lemma Bank.reset_calls_sound [Arithmetic α] {b last : Bank} {watched : Bool}
    {log : List (Event α)} (hu : Uniform ls) (hcs : ∀ c ∈ cs, c.locations ⊆ ls)
    (hr : ({ b.reset with watched } : Bank).calls cs = .ok (last, log)) :
    last.Ordered hu.naming ∧ last.perThread = b.perThread ∧
      last.marks.length = (log.filterMap Event.marking?).getLast?.getD b.perThread.toNat ∧
      ∀ e ∈ log, e.Sound hu.naming ∧ e.after.perThread = b.perThread := by
  have hs := calls_sound (N := hu.naming) (reset_sound b watched).toOrdered
    (fun c hc l hl => mem_map_of_mem (hcs c hc hl)) _ hr
  simpa [reset] using hs

end Kinetics.Accelerator
