import Kinetics.Proofs.BankCalls
import Kinetics.Emit.LaunchBounds
/-!
# Slots of shared memory and the size of a block

For every sequence of calls to a bank that gives a result, the held and the free
slots stay the numbers of the bank, each once, no location is held twice, and a
load keeps what it was asked for. The addresses that are printed lie, for every
thread of a block, in the shared memory that the launch bounds declare.
-/

open List

namespace Kinetics.Accelerator

open Emit Code

variable {α : Type}

/-! ## Slots, locations and addresses -/

/-- The held and the free slots are the first numbers, each once. -/
def Bank.Partitioned (size : ℕ) (b : Bank) : Prop :=
  (b.held.map (·.slot) ++ b.free).Perm ((List.range size).map Slot.numbered)

def Bank.Distinct (b : Bank) : Prop :=
  b.held.Pairwise fun h k => h.location.serves k.location = false ∧ k.location.serves h.location = false

/-- What was asked for and held before stays in its slot, and no eviction of it is reported. -/
def Event.KeepsRequests (e : Event α) : Prop :=
  (∀ h ∈ e.before.held, ∀ l ∈ e.call.requested, l.serves h.location = true →
    ∃ k ∈ e.after.held, k.slot = h.slot ∧ k.location.plain = h.location.plain) ∧
  ∀ h ∈ e.evicted, ∀ l ∈ e.call.requested, l.serves h.location = false

/-- The element of shared memory that an address means for a thread of a block. -/
inductive Means (threads thread : ℤ) : String → ℤ → Prop
  | first : Means threads thread "shared_temp[threadIdx.x]" thread
  | later (k : ℕ) :
    Means threads thread ("shared_temp[threadIdx.x + " ++ toString k ++ " * blockDim.x]") (thread + k * threads)

/-- A header declares the shared memory of a block, in doubles. -/
def Declares (header : SourceFile Scalar) (memory : ℤ) : Prop := ∃ text before after, header.parts = [.text text] ∧
    text = before ++ "#define SHARED_SIZE (" ++ toString memory ++ " * sizeof(double))\n" ++ after

lemma means_address {threads thread : ℤ} {k : ℕ} {cell : ℤ} :
    Means threads thread (Slot.numbered k).address cell ↔ cell = thread + k * threads := by
  constructor
  · intro h
    generalize ha : (Slot.numbered k).address = a at h
    cases h with
    | first =>
      rw [Slot.address_injective (b := 0) ha]
      simp
    | later j =>
      cases k with
      | zero =>
        -- the text of the first slot ends where the others have a sign
        have := congrArg (fun s : String => s.toList[23]?) ha
        simp [Slot.address] at this
      | succ k => rw [show k + 1 = j by simpa [Slot.address] using ha]
  · rintro rfl
    cases k with
    | zero =>
      have hf : Means threads thread "shared_temp[threadIdx.x]" thread := .first
      simpa [Slot.address] using hf
    | succ k => exact Means.later (k + 1)

/-! ## Sizes -/

variable {preferCache : Bool}

/-- The slots of all threads of a block fit into the block's shared memory. -/
lemma create_fits {blocks threads : ℤ} {b : Bank} (ht : 1 ≤ threads)
    (h : Bank.create blocks threads preferCache = .ok b) :
    ∃ memory, blockMemory blocks preferCache false = .ok memory ∧ b.perThread * threads ≤ memory := by
  obtain ⟨memory, hm, h⟩ := bind_eq_ok.1 h
  obtain ⟨slots, hs, h⟩ := bind_eq_ok.1 h
  cases h
  refine ⟨memory, hm, ?_⟩
  unfold sharedPerThread floorDiv at hs
  rw [hm, ok_bind, if_neg (by omega)] at hs
  cases hs
  rw [Int.fdiv_eq_ediv_of_nonneg _ (by omega)]
  exact Int.ediv_mul_le _ (by omega)

lemma launchHeader_declares {blocks memory : ℤ}
    (h : blockMemory blocks preferCache false = .ok memory) (threads : ℤ) :
    ∃ he, launchHeader blocks threads preferCache false = .ok he ∧ Declares he memory := by
  unfold launchHeader
  rw [h]
  exact ⟨_, rfl, _, _, _, rfl, String.append_assoc ..⟩

/-! ## Banks in order -/

namespace Bank

variable {b : Bank}

lemma Ordered.partitioned {N : Naming} (hb : b.Ordered N) : b.Partitioned b.perThread.toNat := by
  have hs : (b.table N).map Prod.fst = b.held.map (·.slot) := by
    simp [table, Function.comp_def, Holding.entry]
  unfold Partitioned
  rw [← hs]
  exact hb.slots

lemma Ordered.distinct {N : Naming} (hb : b.Ordered N) : b.Distinct := by
  have hl : (b.table N).map Prod.snd = b.held.map (N.key ·.location) := by
    simp [table, Function.comp_def, Holding.entry]
  have hkn : ∀ h ∈ b.held, N.known (N.key h.location) := fun h hh => hb.known (h.entry N) (mem_map_of_mem hh)
  have hn : (b.held.map (N.key ·.location)).Nodup := hl ▸ hb.locations
  refine List.Pairwise.imp_of_mem ?_ (pairwise_map.1 hn)
  intro h k hh hk hne
  constructor
  · exact Bool.eq_false_iff.2 fun hs => hne ((N.separate _ _ (hkn h hh) (hkn k hk)).1 hs)
  · exact Bool.eq_false_iff.2 fun hs => hne ((N.separate _ _ (hkn k hk) (hkn h hh)).1 hs).symm

end Bank

namespace Event.Sound

variable {e : Event α}

lemma keepsRequests {ls : List Location} {hu : Uniform ls} (he : e.Sound hu.naming) : e.KeepsRequests := by
  -- a location that is held and served by a requested one is that one
  have hsm : ∀ h : Holding, h.entry hu.naming ∈ e.before.table hu.naming → ∀ l ∈ e.call.requested,
      l.serves h.location = true → h.location.plain ∈ e.call.requested.map Location.plain := fun h hh l hl hs =>
    mem_map.2 ⟨l, hl, (hu.naming.separate _ _ (he.named l hl) (he.before.known _ hh)).1 hs⟩
  constructor
  · intro h hh l hl hs
    have hm : h.entry hu.naming ∈ e.before.table hu.naming := mem_map_of_mem hh
    obtain ⟨k, hk, hen⟩ := mem_map.1 (he.kept _ hm (hsm h hm l hl hs))
    exact ⟨k, hk, congrArg Prod.fst hen, congrArg Prod.snd hen⟩
  · intro h hh l hl
    obtain ⟨hm, hno⟩ := he.evicted h hh
    exact Bool.eq_false_iff.2 fun hs => hno (hsm h hm l hl hs)

lemma address {N : Naming} (he : e.Sound N) {a : String} (ha : a ∈ e.addresses) :
    ∃ k < e.before.perThread.toNat, a = (Slot.numbered k).address := by
  have hsl : ∀ h : Holding, h.entry N ∈ e.before.table N →
      ∃ k < e.before.perThread.toNat, h.slot.address = (Slot.numbered k).address := by
    intro h hh
    obtain ⟨k, hk, hs⟩ := he.before.numbered hh
    exact ⟨k, hk, congrArg Slot.address hs⟩
  rcases mem_append.1 ha with ha | ha
  · obtain ⟨h, hh, rfl⟩ := mem_map.1 ha
    rcases mem_append.1 hh with hh | hh
    · have hm : h.entry N ∈ e.after.table N := mem_map_of_mem (he.stored h hh)
      obtain ⟨k, hk, hs⟩ := he.after.numbered hm
      exact ⟨k, he.size ▸ hk, congrArg Slot.address hs⟩
    · exact hsl h (he.evicted h hh).1
  · split at ha
    · next l _ =>
      split at ha
      · next hhl =>
        rw [mem_singleton.1 ha]
        unfold Bank.access
        cases hf : e.before.find? l with
        | none =>
          rw [Bank.holds, any_eq_true] at hhl
          obtain ⟨h, hh, hs⟩ := hhl
          exact absurd hs (List.find?_eq_none.1 hf h hh)
        | some h => exact hsl h (mem_map_of_mem (mem_of_find?_eq_some hf))
      · cases ha
    · cases ha

end Event.Sound

/-! ## All sequences of calls -/

/-- For every sequence of calls to a new bank that gives a result, the slots stay apart, no location is held twice, a
load keeps its own requests, and every printed address lies in the declared memory. -/
theorem calls_keep_slots [Arithmetic α] {blocks threads : ℤ} {preferCache : Bool} {b : Bank}
    (hthreads : 1 ≤ threads) (hcreate : Bank.create blocks threads preferCache = .ok b)
    (watched : Bool) {cs : List (Call α)} (huniform : Uniform (cs.flatMap Call.locations)) {last : Bank}
    {log : List (Event α)} (hrun : ({ b.reset with watched } : Bank).calls cs = .ok (last, log)) :
    (last.Partitioned b.perThread.toNat ∧ last.Distinct) ∧
    (∀ e ∈ log, e.after.Partitioned b.perThread.toNat ∧ e.after.Distinct ∧ e.KeepsRequests) ∧
    ∃ header memory, launchHeader blocks threads preferCache false = .ok header ∧ Declares header memory ∧
      ∀ e ∈ log, ∀ a ∈ e.addresses, ∀ thread, 0 ≤ thread → thread < threads →
        ∃ cell, (∀ c, Means threads thread a c ↔ c = cell) ∧ 0 ≤ cell ∧ cell < memory := by
  have hcs : ∀ c ∈ cs, c.locations ⊆ cs.flatMap Call.locations := fun c hc l hl =>
    mem_flatMap.2 ⟨c, hc, hl⟩
  obtain ⟨hlast, hsize, -, hsound⟩ := Bank.reset_calls_sound huniform hcs hrun
  obtain ⟨memory, hmemory, hfits⟩ := create_fits hthreads hcreate
  obtain ⟨header, hheader, hdeclares⟩ := launchHeader_declares hmemory threads
  refine ⟨⟨?_, hlast.distinct⟩, ?_, header, memory, hheader, hdeclares, ?_⟩
  · rw [← hsize]
    exact hlast.partitioned
  · intro e he
    obtain ⟨hs, hafter⟩ := hsound e he
    rw [← hafter]
    exact ⟨hs.after.partitioned, hs.after.distinct, hs.keepsRequests⟩
  · intro e he a ha thread hfrom hto
    obtain ⟨hs, hafter⟩ := hsound e he
    obtain ⟨k, hk, rfl⟩ := hs.address ha
    have hbefore : e.after.perThread = e.before.perThread := hs.size
    refine ⟨thread + k * threads, fun c => means_address, by positivity, ?_⟩
    have hle : (k + 1 : ℤ) ≤ b.perThread := by omega
    calc thread + k * threads < (k + 1) * threads := by linarith
      _ ≤ b.perThread * threads := mul_le_mul_of_nonneg_right hle (by omega)
      _ ≤ memory := hfits

def sampleBank : Bank where
  perBlock := 256
  perThread := 4
  free := List.replicate 4 .unnumbered
  marks := List.replicate 4 false

/-- Loads with an eviction between them, written in two languages. -/
def sampleCalls : List (Call Scalar) :=
  [.load [⟨"conc", some 0, .cuda⟩, ⟨"conc", some 1, .c⟩, ⟨"y", some 2, .cuda⟩, ⟨"T", none, .cuda⟩]
      [.int 2, .int 2, .int 1, .int 3],
    .access ⟨"conc", some 1, .cuda⟩, .mark [⟨"y", some 2, .cuda⟩],
    .load [⟨"conc", some 7, .cuda⟩, ⟨"conc", some 0, .cuda⟩] [.int 2, .int 2], .evict 2,
    .load [⟨"y", some 2, .cuda⟩] [.int 0], .evictAll]

theorem calls_keep_slots_sample :
    ∃ last log, Bank.create 8 64 true = .ok sampleBank ∧ Uniform (sampleCalls.flatMap Call.locations) ∧
      ({ sampleBank.reset with watched := true } : Bank).calls sampleCalls = .ok (last, log) ∧ log.length = 7 ∧
      (last.Partitioned 4 ∧ last.Distinct) ∧ (∀ e ∈ log, e.after.Partitioned 4 ∧ e.after.Distinct ∧ e.KeepsRequests) ∧
      ∃ header memory, launchHeader 8 64 true false = .ok header ∧ Declares header memory ∧
        ∀ e ∈ log, ∀ a ∈ e.addresses, ∀ thread, 0 ≤ thread → thread < 64 →
          ∃ cell, (∀ c, Means 64 thread a c ↔ c = cell) ∧ 0 ≤ cell ∧ cell < memory := by
  have hcreate : Bank.create 8 64 true = .ok sampleBank := by decide +kernel
  have huniform : Uniform (sampleCalls.flatMap Call.locations) := by decide +kernel
  obtain ⟨last, log, hrun, hlength⟩ : ∃ last log,
      ({ sampleBank.reset with watched := true } : Bank).calls sampleCalls = .ok (last, log) ∧
        log.length = 7 := ⟨_, _, rfl, rfl⟩
  exact ⟨last, log, hcreate, huniform, hrun, hlength, calls_keep_slots (by decide) hcreate true huniform hrun⟩

end Kinetics.Accelerator
