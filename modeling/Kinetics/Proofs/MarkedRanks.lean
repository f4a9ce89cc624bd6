import Kinetics.Proofs.BankCalls
/-!
# Marks are set by rank and read by slot

A call to mark locations writes one mark for each holding, in the order of the
holdings, while a load reads the mark of a slot by its number. So there is no mark
for a slot beyond the number of holdings, and a load that needs it stops; a mark
belongs to the location that it was set for only if its rank is its slot. All other
loads give a result, and they evict only what is marked in this sense or has waited.
-/

open List

namespace Kinetics.Accelerator

variable {α : Type}

/-- A load with an estimate for each location, a marking or an access. -/
def Call.Regular : Call α → Prop
  | .load wanted uses => wanted.length ≤ uses.length
  | .mark _ => True
  | .access _ => True
  | .evict _ => False
  | .evictAll => False

variable {uses : List α} {c : Call α}

namespace Bank

variable {N : Naming} {b : Bank} {wanted : List Location}

/-! ## Loads that stop -/

section Calls
variable [Arithmetic α]

/-- A requested location whose slot has no mark stops a load at its start. -/
lemma load_of_missing (hb : b.Ordered N) (hl : wanted.length ≤ uses.length) {k : Holding} (hk : k ∈ b.held)
    (hm : b.marks.length ≤ k.slot.number) (hw : wanted.any (·.serves k.location) = true) :
    b.call (.load wanted uses) = .error .missingEntry := by
  have hn : (wanted.zip uses).map (·.1) = wanted := map_fst_zip hl
  have hp : b.prepare wanted = .error .missingEntry := by
    generalize hr : b.prepare wanted = r
    have hrc := prepare_reaches hb wanted
    rw [hr] at hrc
    cases hrc with
    | ok h =>
      obtain ⟨marks, -, hrm⟩ := h
      exact absurd (hrm.requested k.wait (mem_map_of_mem hk) hw).1 (not_lt.2 hm)
    | missing => rfl
  simp only [call, request, if_neg (not_lt.2 hl), load, hn, hp]
  rfl

/-- A regular call stops only if it is a load and marks are missing. -/
lemma call_reaches (hb : b.Ordered N) (hrg : c.Regular) (hc : ∀ l ∈ c.locations, N.known (N.key l)) :
    (∃ e, b.call c = .ok e) ∨ b.Short ∧ (∃ wanted uses, c = .load wanted uses) ∧ b.call c = .error .missingEntry := by
  cases c with
  | load wanted uses =>
    have hln : wanted.length ≤ uses.length := hrg
    have hn : (wanted.zip uses).map Prod.fst = wanted := map_fst_zip hln
    simp only [call, request, if_neg (not_lt.2 hln)]
    generalize hl : b.load (wanted.zip uses) = r
    have hk : ∀ r ∈ wanted.zip uses, N.known (N.key r.1) := fun r hr => hc _ (hn ▸ mem_map_of_mem hr)
    have hrc := load_loading hb hk
    rw [hl] at hrc
    cases hrc with
    | ok _ => exact .inl ⟨_, rfl⟩
    | missing hs => exact .inr ⟨hs, ⟨wanted, uses, rfl⟩, rfl⟩
  | mark ls => exact .inl ⟨_, rfl⟩
  | access l => exact .inl ⟨_, rfl⟩
  | evict n => exact hrg.elim
  | evictAll => exact hrg.elim

/-! ## What a load gives up -/

lemma load_releases (hb : b.Ordered N) (hw : ∀ l ∈ wanted, N.known (N.key l)) :
    Yields (fun e => ∀ x ∈ b.table N, x ∈ e.after.table N ∨ b.Releasable N x) (b.call (.load wanted uses)) := by
  classical
  unfold call request
  dsimp only
  split
  · exact yields_error _
  · next hln =>
    have hn : (wanted.zip uses).map Prod.fst = wanted := map_fst_zip (not_lt.1 hln)
    -- everything that may not be given up is kept, beside the requests
    set kept := ((b.table N).filter fun x => ¬ b.Releasable N x).map Prod.snd with hk
    refine (load_keeping hb (fun r hr => hw _ (hn ▸ mem_map_of_mem hr))
      (subset_append_left (((wanted.zip uses).map (·.1)).map N.key) kept) ?_).yields.bind ?_
    · intro x hx hno hrl hm
      rcases mem_append.1 hm with hm | hm
      · exact hno hm
      · obtain ⟨y, hy, hlc⟩ := mem_map.1 hm
        obtain ⟨hy, hnt⟩ := mem_filter.1 hy
        have hsl : y.1 = x.1 := hb.slot_unique (hlc ▸ hy) hx
        rw [Prod.ext hsl hlc] at hnt
        simp [hrl] at hnt
    · rintro loaded ⟨b', out, rfl, hl⟩
      refine yields_pure.2 fun x hx => ?_
      rcases hl.kept x hx with hin | ⟨hno, -⟩
      · exact .inl hin
      · refine .inr (by_contra fun hnt => hno (mem_append_right _ ?_))
        exact mem_map_of_mem (mem_filter.2 ⟨hx, by simpa using hnt⟩)

end Calls

/-! ## Ranks -/

/-- Marks set for some locations are on the slots that hold them. -/
def MarksSlots (b : Bank) (vs : List Location) : Prop := ∀ n, (b.mark vs).marks[n]? = some true ↔
    ∃ h ∈ b.held, h.slot.number = n ∧ vs.any (·.serves h.location) = true

/-- The mark of a slot tells of the holding whose rank is the number of the slot. -/
lemma marks_mark (b : Bank) (vs : List Location) (n : ℕ) :
    (b.mark vs).marks[n]? = some true ↔ ∃ h, b.held[n]? = some h ∧ vs.any (·.serves h.location) = true := by
  simp only [mark, List.getElem?_map, Option.map_eq_some_iff]

/-- Marks are always on the right slots exactly if every rank is its slot. -/
lemma marksSlots_iff (hb : b.Ordered N) :
    (∀ vs, b.MarksSlots vs) ↔ ∀ (n : ℕ) (h : Holding), b.held[n]? = some h → h.slot.number = n := by
  have hmm : ∀ h ∈ b.held, h.entry N ∈ b.table N := fun h hh => mem_map_of_mem hh
  constructor
  · intro ha n h hn
    have hh := mem_of_getElem? hn
    have hP := hb.known _ (hmm h hh)
    have hsr : h.location.serves h.location = true := (N.separate _ _ hP hP).2 rfl
    obtain ⟨h', hh', hsl, hs⟩ := (ha [h.location] n).1 ((marks_mark b _ n).2 ⟨h, hn, by simp [hsr]⟩)
    rw [any_cons, any_nil, Bool.or_false] at hs
    have hl : N.key h.location = N.key h'.location := (N.separate _ _ hP (hb.known _ (hmm h' hh'))).1 hs
    -- one location is in one slot
    have hm := hmm h hh
    rw [Holding.entry, hl] at hm
    exact (congrArg Slot.number (hb.slot_unique hm (hmm h' hh'))).trans hsl
  · intro hr vs n
    rw [marks_mark]
    constructor
    · rintro ⟨h, hn, hs⟩
      exact ⟨h, mem_of_getElem? hn, hr n h hn, hs⟩
    · rintro ⟨h, hh, hsl, hs⟩
      obtain ⟨m, hm⟩ := mem_iff_getElem?.1 hh
      obtain rfl : m = n := (hr m h hm).symm.trans hsl
      exact ⟨h, hm, hs⟩

end Bank

/-! ## All sequences of regular calls -/

open Bank in
/-- Regular calls after a reset. There are as many marks as there were holdings at the last marking; only a load can
stop, for a mark that is missing, and it does if it requests a location in a slot without mark. A mark belongs to the
location of its rank, which is the location of its slot exactly if all ranks are slots. A load after a marking gives up
only what is marked in this sense or has waited. -/
theorem marks_follow_ranks [Arithmetic α] (b₀ : Bank) (watched : Bool) {cs : List (Call α)}
    {ls : List Location} (huniform : Uniform ls) (hcs : ∀ c ∈ cs, c.Regular ∧ c.locations ⊆ ls) {b : Bank}
    {log : List (Event α)} (hrun : ({ b₀.reset with watched } : Bank).calls cs = .ok (b, log)) :
    b.marks.length = (log.filterMap Event.marking?).getLast?.getD b₀.perThread.toNat ∧
    (∀ c : Call α, c.Regular → c.locations ⊆ ls → (∃ e, b.call c = .ok e) ∨ b.marks.length < b₀.perThread.toNat ∧
        (∃ wanted uses, c = .load wanted uses) ∧ b.call c = .error .missingEntry) ∧
    (∀ wanted (uses : List α), wanted.length ≤ uses.length →
      (∃ h ∈ b.held, b.marks.length ≤ h.slot.number ∧ wanted.any (·.serves h.location) = true) →
      b.call (.load wanted uses) = .error .missingEntry) ∧
    (∀ vs (n : ℕ), (b.mark vs).marks[n]? = some true ↔ ∃ h, b.held[n]? = some h ∧ vs.any (·.serves h.location) = true) ∧
    ((∀ vs, b.MarksSlots vs) ↔ ∀ (n : ℕ) (h : Holding), b.held[n]? = some h → h.slot.number = n) ∧
    ∀ vs wanted (uses : List α) e, wanted ⊆ ls → (b.mark vs).call (.load wanted uses) = .ok e →
      ∀ h ∈ b.held, (∀ k ∈ e.after.held, k.slot = h.slot → k.location.plain ≠ h.location.plain) →
        (∃ r, b.held[h.slot.number]? = some r ∧ vs.any (·.serves r.location) = true) ∨ 1 ≤ h.idle := by
  obtain ⟨hb, hsize, hmarks, -⟩ := reset_calls_sound huniform (fun c hc => (hcs c hc).2) hrun
  refine ⟨hmarks, ?_, ?_, marks_mark b, marksSlots_iff hb, ?_⟩
  · intro c hregular hc
    rw [← hsize]
    exact call_reaches hb hregular fun l hl => mem_map_of_mem (hc hl)
  · rintro wanted uses hlength ⟨h, hh, hmissing, hwanted⟩
    exact load_of_missing hb hlength hh hmissing hwanted
  · intro vs wanted uses e hw hcall h hh hgone
    have hentry : h.entry huniform.naming ∈ (b.mark vs).table huniform.naming := mem_map_of_mem hh
    rcases load_releases (mark_ordered hb vs) (fun l hl => mem_map_of_mem (hw hl)) _ hcall _ hentry with
      hin | hmark | ⟨k, hk, heq, hidle⟩
    · obtain ⟨k, hk, heq⟩ := mem_map.1 hin
      exact absurd (congrArg Prod.snd heq) (hgone k hk (congrArg Prod.fst heq))
    · exact .inl ((marks_mark b vs _).1 hmark)
    · have hslot : k.slot.number = h.slot.number := congrArg (·.1.number) heq
      obtain rfl : k = h := inj_on_of_nodup_map hb.nodup_numbers hk hh hslot
      exact .inr hidle

/-- Two locations in a bank with four slots, the first of which is marked. -/
def markedCalls : List (Call Scalar) := [.load [⟨"fwd_rates", some 0, .cuda⟩, ⟨"conc", some 0, .cuda⟩] [.int 3, .int 2],
    .mark [⟨"fwd_rates", some 0, .cuda⟩]]

/-- The marks of the third and the fourth slot are missing, so the next load of what they hold stops. -/
theorem marks_follow_ranks_stop : Uniform (markedCalls.flatMap Call.locations) ∧ (∀ c ∈ markedCalls, c.Regular) ∧
      ∃ b log, (Bank.reset { perBlock := 256, perThread := 4 }).calls markedCalls = .ok (b, log) ∧
        b.marks.length = 2 ∧ (¬ ∀ vs, b.MarksSlots vs) ∧
        b.call (.load [⟨"conc", some 0, .cuda⟩] [Scalar.int 2]) = .error .missingEntry := by
  have huniform : Uniform (markedCalls.flatMap Call.locations) := by decide
  have hregular : ∀ c ∈ markedCalls, c.Regular := by
    intro c hc
    simp only [markedCalls, mem_cons, not_mem_nil, or_false] at hc
    rcases hc with rfl | rfl
    · exact le_refl 2
    · trivial
  obtain ⟨b, log, hrun, hmarking, hheld⟩ : ∃ b log,
      (Bank.reset { perBlock := 256, perThread := 4 }).calls markedCalls = .ok (b, log) ∧
        log.filterMap Event.marking? = [2] ∧
        b.held = [⟨.numbered 3, ⟨"fwd_rates", some 0, .cuda⟩, 0⟩, ⟨.numbered 2, ⟨"conc", some 0, .cuda⟩, 0⟩] :=
    ⟨_, _, rfl, rfl, rfl⟩
  obtain ⟨hmarks, -, hstops, -, hranks, -⟩ := marks_follow_ranks { perBlock := 256, perThread := 4 } false huniform
    (fun c hc => ⟨hregular c hc, fun l hl => mem_flatMap.2 ⟨c, hc, hl⟩⟩) hrun
  rw [hmarking] at hmarks
  refine ⟨huniform, hregular, b, log, hrun, hmarks, ?_, hstops _ _ (le_refl 1) ?_⟩
  · rw [hranks, hheld]
    intro h
    have := h 0 _ rfl
    cases this
  · rw [hheld, hmarks]
    exact ⟨_, mem_cons_of_mem _ mem_cons_self, le_refl 2, by decide⟩

end Kinetics.Accelerator
