import Kinetics.Proofs.NumberedFunctions
/-!
# The two loops of a split Jacobian

Both loops cut their members into batches and put each batch into a numbered function. The
reaction loop starts over with half the length if its first file is too long, and forgets what
it had. The loop over species looks at every file, and when one is too long it starts over but
keeps the functions that it has called by then. `Passes` lists what is called in each pass and
how the last pass ended.
-/

open List

namespace Kinetics.Jacobian

open Code Emit

variable {α : Type} {t : Target}

/-! ## Batches -/

variable {passes : List (List Batch)} {b : Batch}

section Batches
variable {β : Type} {k n : ℕ}

lemma batches_of_pos (hk : k ≠ 0) (hn : n ≠ 0) :
    batches k n = (List.range ((n + k - 1) / k)).map fun i => ⟨i * k, min ((i + 1) * k) n, min ((i + 1) * k) n⟩ := by
  have hl : ¬(k : ℤ) < 1 := by omega
  simp only [batches, if_neg hn, if_neg hl, Int.toNat_natCast]

lemma members_range (xs : List β) (k m : ℕ) :
    ((List.range m).map fun i => (⟨i * k, min ((i + 1) * k) xs.length, min ((i + 1) * k) xs.length⟩ : Batch)).flatMap
      (·.members xs) = xs.zipIdx.take (m * k) := by
  induction m with
  | zero => simp
  | succ m ih =>
    have ht : xs.zipIdx.take (min ((m + 1) * k) xs.length) = xs.zipIdx.take ((m + 1) * k) := by
      conv_rhs => rw [take_eq_take_min, length_zipIdx]
    have hle : m * k ≤ (m + 1) * k := Nat.mul_le_mul_right k (Nat.le_succ m)
    rw [range_succ, map_append, flatMap_append, ih, map_singleton, flatMap_singleton, Batch.members, ht]
    conv_rhs => rw [← take_append_drop (m * k) (xs.zipIdx.take ((m + 1) * k)), take_take, min_eq_left hle]

lemma le_batches (hk : k ≠ 0) (n : ℕ) : n ≤ (n + k - 1) / k * k := by
  have := Nat.div_add_mod (n + k - 1) k
  have := Nat.mod_lt (n + k - 1) (Nat.pos_of_ne_zero hk)
  rw [Nat.mul_comm]
  omega

lemma batches_members (k : ℕ) (xs : List β) (hxs : xs ≠ []) :
    ((batches k xs.length).map (·.members xs)).flatten = xs.zipIdx := by
  have hn : xs.length ≠ 0 := by simpa using hxs
  rw [← flatMap_def]
  by_cases hk : k = 0
  · have ha : batches k xs.length = [⟨0, xs.length, 0⟩] := by simp [batches, hn, hk]
    rw [ha, flatMap_singleton, Batch.members]
    exact take_of_length_le (length_zipIdx).le
  · rw [batches_of_pos hk hn, members_range]
    exact take_of_length_le (by rw [length_zipIdx]; exact le_batches hk _)

variable {front rest : List Batch}

lemma batches_entry (hk : k ≠ 0) (hn : n ≠ 0)
    (h : batches k n = front ++ b :: rest) : (n + k - 1) / k = front.length + 1 + rest.length ∧
      b = ⟨front.length * k, min ((front.length + 1) * k) n, min ((front.length + 1) * k) n⟩ := by
  rw [batches_of_pos hk hn] at h
  have hl : (n + k - 1) / k = front.length + 1 + rest.length := by
    have hc := congrArg List.length h
    simp only [length_map, length_range, length_append, length_cons] at hc
    omega
  have he := congrArg (·[front.length]?) h
  simp only [List.getElem?_map, List.getElem?_append_right le_rfl, Nat.sub_self, List.getElem?_cons_zero,
    List.getElem?_range (show front.length < (n + k - 1) / k by omega), Option.map_some, Option.some.injEq] at he
  exact ⟨hl, he.symm⟩

/-- A batch ends with the last member exactly if it is the last batch. -/
lemma batches_last (hk : k ≠ 0) (hn : n ≠ 0)
    (h : batches k n = front ++ b :: rest) : front.length * k < n ∧ (b.stop = n ↔ rest = []) := by
  obtain ⟨hl, rfl⟩ := batches_entry hk hn h
  -- every batch starts before the last member
  have hb : ∀ i < (n + k - 1) / k, i * k < n := by
    intro i hi
    have hm : (i + 1) * k ≤ n + k - 1 := (Nat.le_div_iff_mul_le (Nat.pos_of_ne_zero hk)).1 hi
    rw [Nat.succ_mul] at hm
    omega
  have hf := hb front.length (by omega)
  refine ⟨hf, ?_⟩
  rw [← length_eq_zero_iff]
  dsimp only
  constructor
  · intro heq
    by_contra hr
    have := hb (front.length + 1) (by omega)
    omega
  · intro hr
    have := le_batches hk n
    rw [hl, hr, Nat.add_zero] at this
    omega

variable {xs : List β}

lemma members_ne_nil (hk : k ≠ 0) (hxs : xs ≠ [])
    (h : batches k xs.length = front ++ b :: rest) : b.members xs ≠ [] := by
  have hn : xs.length ≠ 0 := by simpa using hxs
  have hs := (batches_last hk hn h).1
  obtain ⟨-, rfl⟩ := batches_entry hk hn h
  have hst : front.length * k < (front.length + 1) * k := by
    rw [Nat.succ_mul]
    omega
  rw [← length_pos_iff, Batch.members, length_drop, length_take, length_zipIdx]
  dsimp only
  omega

/-- The positions of the members of batches, in the order of the batches. -/
def positions (xs : List β) (bs : List Batch) : List ℕ := bs.flatMap fun b => (b.members xs).map Prod.snd

lemma positions_append (xs : List β) (bs cs : List Batch) :
    positions xs (bs ++ cs) = positions xs bs ++ positions xs cs := flatMap_append

lemma positions_front (hk : k ≠ 0) (hxs : xs ≠ []) (h : batches k xs.length = front ++ rest) :
    positions xs front = List.range (min (front.length * k) xs.length) := by
  rw [batches_of_pos hk (by simpa using hxs)] at h
  have hf : front = (List.range front.length).map fun i =>
      ⟨i * k, min ((i + 1) * k) xs.length, min ((i + 1) * k) xs.length⟩ := by
    have ht := congrArg (List.take front.length) h
    have hle := congrArg List.length h
    rw [take_left, ← map_take, take_range] at ht
    rw [length_map, length_range, length_append] at hle
    rw [min_eq_left (by omega)] at ht
    exact ht.symm
  rw [positions, ← map_flatMap, hf, members_range, map_take, zipIdx_map_snd,
    ← range_eq_range', take_range, length_map, length_range]

/-- If every list of batches starts with the first member, no member occurs more often than the first. -/
lemma count_positions_le (h : ∀ p ∈ passes, ∃ r, positions xs p = List.range r) (i : ℕ) :
    (positions xs passes.flatten).count i ≤ (positions xs passes.flatten).count 0 := by
  induction passes with
  | nil => exact le_rfl
  | cons p passes ih =>
    rw [forall_mem_cons] at h
    obtain ⟨⟨r, hr⟩, hrs⟩ := h
    have hle : (List.range r).count i ≤ (List.range r).count 0 := by
      rw [count_range, count_range]
      split_ifs <;> omega
    rw [flatten_cons, positions_append, count_append, count_append, hr]
    exact Nat.add_le_add hle (ih hrs)

end Batches

/-! ## The reaction loop -/

variable {files : List (SourceFile α)} {bs : List Batch} {closing : String} {length : ℕ} {body : List (Item α)}

section Reactions

lemma numberedFiles_numbered {k : ℕ} {lead : String} {prototype head : Except Fault Signature}
    {declarations : List (Step α)} (hn : Yields (·.name = functionName k) head)
    (h : numberedFiles t "jacobs/" k lead prototype head declarations body closing = .ok files) :
    ∃ source, Numbered t k files source ∧ ∃ text he, he.name = functionName k ∧
      source.parts = [.text text, .function he (declarations.map .step ++ body) closing] := by
  obtain ⟨suffix, hs, h⟩ := bind_eq_ok.1 h
  obtain ⟨guard, -, h⟩ := bind_eq_ok.1 h
  obtain ⟨announced, -, h⟩ := bind_eq_ok.1 h
  obtain ⟨he, hd, h⟩ := bind_eq_ok.1 h
  cases h
  exact ⟨_, ⟨⟨_, suffix, hs, rfl, rfl⟩, rfl⟩, _, he, hn he hd, rfl⟩

lemma batchSignature_name (k : ℕ) (rates : List String) (needs : Needs) (lastArray : String) :
    Yields (·.name = functionName k) (batchSignature t k rates needs lastArray) :=
  yields_bind fun _ => yields_pure.2 rfl

variable [Arithmetic α] {e : LoopSetting α} {s s' : LoopState α} {out out' : Split α}

/-- The file of function `k` holds the statements of the given reactions, one block for each. -/
def ReactionFunction (e : LoopSetting α) (k : ℕ) (members : List (Reaction ℕ α × ℕ)) (f : SourceFile α) : Prop :=
  ∃ blocks, Holds f (functionName k) blocks ∧
    List.Forall₂ (fun x block => ∃ s s', reactionStep e s x.2 x.1 = .ok (s', block)) members blocks

lemma reactionRun_blocks {members : List (Reaction ℕ α × ℕ)} {items : List (Item α)}
    (h : reactionRun e s members = .ok (s', items)) : ∃ blocks, items = blocks.flatten ∧
      List.Forall₂ (fun x block => ∃ s s', reactionStep e s x.2 x.1 = .ok (s', block)) members blocks := by
  induction members generalizing s items with
  | nil =>
    cases h
    exact ⟨[], rfl, .nil⟩
  | cons x members ih =>
    obtain ⟨⟨s₁, first⟩, hf, h⟩ := bind_eq_ok.1 h
    obtain ⟨⟨s₂, more⟩, hm, h⟩ := bind_eq_ok.1 h
    cases h
    obtain ⟨blocks, rfl, hb⟩ := ih hm
    exact ⟨first :: blocks, rfl, .cons ⟨s, s₁, hf⟩ hb⟩

lemma reactionBatches_added (h : reactionBatches t e bs s out = .ok (s', out')) :
    Added t (ReactionFunction e) out (bs.map (·.members e.reactions)) out' ∧ out'.tookRest = out.tookRest ∧
      ∃ more, out'.files = out.files ++ more := by
  induction bs generalizing s out with
  | nil =>
    cases h
    exact ⟨.nil t _ _, rfl, [], (append_nil _).symm⟩
  | cons b bs ih =>
    obtain ⟨needs, -, h⟩ := bind_eq_ok.1 h
    obtain ⟨⟨s₁, items⟩, hi, h⟩ := bind_eq_ok.1 h
    obtain ⟨files, hf, hr⟩ := bind_eq_ok.1 h
    obtain ⟨source, hn, text, he, hnm, hp⟩ := numberedFiles_numbered (batchSignature_name _ _ _ _) hf
    obtain ⟨blocks, rfl, hb⟩ := reactionRun_blocks hi
    have hfs : Added t (ReactionFunction e) out [b.members e.reactions]
        (out.add files (reactionCall t out.count (rateArrays e.reactions) needs)) :=
      .single hn rfl ⟨blocks, ⟨text, he, batchDeclarations t needs, _, hnm, hp⟩, hb⟩
    obtain ⟨ha, ht, more, hm⟩ := ih hr
    exact ⟨hfs.trans ha, ht, files ++ more, by rw [hm, Split.add, append_assoc]⟩

variable [Written α]

/-- With batches of the given length, the first file has too many lines. -/
def FirstTooLong (t : Target) (lines : ℤ) (e : LoopSetting α) (length : ℕ) : Prop :=
  ∃ s out, reactionBatches t e (batches length e.reactions.length) { bank := t.freshBank } {} = .ok (s, out) ∧
    lines < sourceLines (out.files.take 2)

variable {lines : ℤ}

/-- The loop halves the length as long as the first file is too long. A file of all reactions that is
too long stays behind without a call. -/
lemma splitReactions_cases (h : splitReactions t lines e length = .ok (s, out)) :
    ∃ m, (∀ i < m, length / 2 ^ i ≠ 0 ∧ FirstTooLong t lines e (length / 2 ^ i)) ∧
      ((¬FirstTooLong t lines e (length / 2 ^ m) ∧
        reactionBatches t e (batches (length / 2 ^ m : ℕ) e.reactions.length) { bank := t.freshBank } {} =
          .ok (s, out)) ∨
      (length / 2 ^ m = 0 ∧ FirstTooLong t lines e 0 ∧ ∃ all,
        reactionBatches t e (batches (0 : ℕ) e.reactions.length) { bank := t.freshBank } {} = .ok (s, all) ∧
        out = { files := all.files.take 2 })) := by
  induction length using Nat.strong_induction_on with
  | _ length ih =>
    rw [splitReactions] at h
    obtain ⟨⟨s₁, all⟩, ha, h⟩ := bind_eq_ok.1 h
    dsimp only at h
    split at h
    · next hl =>
      have hf : FirstTooLong t lines e length := ⟨s₁, all, ha, hl⟩
      split at h
      · next hz =>
        cases h
        subst hz
        exact ⟨0, fun i hi => absurd hi (Nat.not_lt_zero i), .inr ⟨by simp, hf, all, ha, rfl⟩⟩
      · next hz =>
        obtain ⟨m, hb, hls⟩ := ih (length / 2) (by omega) h
        have hh : ∀ i, length / 2 / 2 ^ i = length / 2 ^ (i + 1) := fun i => by
          rw [Nat.div_div_eq_div_mul, ← Nat.pow_succ']
        simp only [hh] at hb hls
        refine ⟨m + 1, fun i hi => ?_, hls⟩
        cases i with
        | zero => simpa using ⟨hz, hf⟩
        | succ i => exact hb i (by omega)
    · next hft =>
      cases h
      refine ⟨0, fun i hi => absurd hi (Nat.not_lt_zero i), .inl ⟨?_, by simpa using ha⟩⟩
      rintro ⟨s', all', ha', hl⟩
      rw [pow_zero, Nat.div_one, ha] at ha'
      cases ha'
      exact hft hl

/-- The functions that the loop adds: one for each batch of the first length that suits, or none at all. -/
lemma splitReactions_groups (hne : e.reactions ≠ []) (h : splitReactions t lines e length = .ok (s, out)) :
    ∃ m groups, (∀ i < m, FirstTooLong t lines e (length / 2 ^ i)) ∧ Added t (ReactionFunction e) {} groups out ∧
      out.tookRest = false ∧ (¬FirstTooLong t lines e (length / 2 ^ m) → groups.flatten = e.reactions.zipIdx ∧
        groups = (batches (length / 2 ^ m : ℕ) e.reactions.length).map (·.members e.reactions)) ∧
      (FirstTooLong t lines e (length / 2 ^ m) → length / 2 ^ m = 0 ∧ groups = []) := by
  obtain ⟨m, hb, ⟨hft, hal⟩ | ⟨hz, hl, all, hal, rfl⟩⟩ := splitReactions_cases h
  · obtain ⟨ha, ht, -⟩ := reactionBatches_added hal
    exact ⟨m, _, fun i hi => (hb i hi).2, ha, ht, fun _ => ⟨batches_members _ _ hne, rfl⟩, fun hl => absurd hl hft⟩
  · refine ⟨m, [], fun i hi => (hb i hi).2, ?_, rfl, fun hft => absurd (hz ▸ hl) hft, fun _ => ⟨hz, rfl⟩⟩
    have ha := (reactionBatches_added hal).1
    exact ⟨rfl, ⟨[], rfl, rfl⟩, fun j x hj => by simp at hj, fun k hk => absurd hk (Nat.not_lt_zero k),
      fun f hf => ha.folder f (mem_of_mem_take hf)⟩

end Reactions

/-! ## The loop over species -/

section Species

variable {lastSpecies : Bool}

variable [Arithmetic α] {e : FinishSetting α} {out out' : Split α}

/-- The file of function `k` holds the finishing statements of the given species, one block for each,
and possibly more after them. -/
def SpeciesFunction (e : FinishSetting α) (k : ℕ) (members : List (Species α × ℕ)) (more : List (List (Item α)))
    (f : SourceFile α) : Prop :=
  ∃ blocks, Holds f (functionName k) (blocks.map (·.map Item.step) ++ more) ∧
    List.Forall₂ (fun x block => speciesFinish e.species e.produced e.progress x.2 x.1.weight = .ok block)
      members blocks

variable {members : List (Species α × ℕ)} {steps : List (Step α)}

lemma finishRun_blocks (h : finishRun e.species e.produced e.progress members = .ok steps) :
    ∃ blocks : List (List (Step α)), steps = blocks.flatten ∧
      List.Forall₂ (fun x block => speciesFinish e.species e.produced e.progress x.2 x.1.weight = .ok block)
        members blocks := by
  obtain ⟨blocks, hb, h⟩ := bind_eq_ok.1 h
  cases h
  exact ⟨blocks, rfl, mapM_eq_ok.1 hb⟩

lemma speciesFunction_of_files {k : ℕ} {more : List (Item α)}
    (hs : finishRun e.species e.produced e.progress members = .ok steps)
    (hf : finishFiles t "jacobs/" k lastSpecies (steps.map .step ++ more) closing = .ok files) :
    ∃ source, Numbered t k files source ∧ SpeciesFunction e k members [more] source := by
  obtain ⟨source, hn, text, he, hnm, hp⟩ := numberedFiles_numbered (yields_ok.2 rfl) hf
  obtain ⟨blocks, rfl, hb⟩ := finishRun_blocks hs
  rw [map_flatten, ← flatten_singleton (l := more), ← flatten_append] at hp
  exact ⟨source, hn, blocks, ⟨text, he, _, closing, hnm, hp⟩, hb⟩

def speciesFiles (e : FinishSetting α) (k : ℕ) (b : Batch) : Except Fault (List (SourceFile α)) := do
  let steps ← finishRun e.species e.produced e.progress (b.members e.species)
  finishFiles e.target "jacobs/" k (b.stop == e.species.length && e.lastWritten) (steps.map .step) batchClosing

lemma speciesFiles_numbered {k : ℕ} (h : speciesFiles e k b = .ok files) :
    ∃ source, Numbered e.target k files source ∧ SpeciesFunction e k (b.members e.species) [] source := by
  obtain ⟨steps, hs, h⟩ := bind_eq_ok.1 h
  rw [← append_nil (steps.map Item.step)] at h
  obtain ⟨source, hn, blocks, hh, hb⟩ := speciesFunction_of_files hs h
  refine ⟨source, hn, blocks, ?_, hb⟩
  simpa [Holds] using hh

variable [Written α]

/-- The file of a batch, under a number, has as many lines as are allowed. -/
def Fits (e : FinishSetting α) (k : ℕ) (b : Batch) : Prop :=
  ∃ files, speciesFiles e k b = .ok files ∧ (sourceLines files : ℤ) ≤ e.lines

/-- The file of a batch, under a number, has too many lines. -/
def TooLong (e : FinishSetting α) (k : ℕ) (b : Batch) : Prop :=
  ∃ files, speciesFiles e k b = .ok files ∧ e.lines < sourceLines files

/-- The files of consecutive batches, under consecutive numbers, have as many lines as are allowed. -/
def FitsAll (e : FinishSetting α) (k : ℕ) (front : List Batch) : Prop := ∀ j b, front[j]? = some b → Fits e (k + j) b

/-- How the passes over the species end. -/
inductive PassEnd where
  /-- All files of the last pass fit. -/
  | complete
  /-- Only the last file of the last pass is too long; it is written but not called. -/
  | dropped
  /-- The length has come down to nothing: one open function takes all species and is not called. -/
  | opened
  deriving DecidableEq

/-- The passes over the species with a length of batches, from a number of a function on. Each pass is the
list of batches that it calls. -/
inductive Passes (e : FinishSetting α) : ℕ → ℕ → List (List Batch) → PassEnd → Prop where
  | complete {length k : ℕ} (hlength : length ≠ 0) (hfits : FitsAll e k (batches length e.species.length)) :
    Passes e length k [batches length e.species.length] .complete
  | dropped {length k : ℕ} {front : List Batch} {b : Batch} (hlength : length ≠ 0)
    (hbatches : batches length e.species.length = front ++ [b]) (hfits : FitsAll e k front)
    (hlong : TooLong e (k + front.length) b) : Passes e length k [front] .dropped
  | again {length k : ℕ} {front back : List Batch} {b c : Batch} {passes : List (List Batch)} {ending : PassEnd}
    (hlength : length ≠ 0) (hbatches : batches length e.species.length = front ++ b :: c :: back)
    (hfits : FitsAll e k front) (hlong : TooLong e (k + front.length) b)
    (hrest : Passes e (length / 2) (k + front.length) passes ending) : Passes e length k (front :: passes) ending
  | opened {k : ℕ} : Passes e 0 k [] .opened

lemma FitsAll.cons {k : ℕ} {front : List Batch} (hb : Fits e k b) (h : FitsAll e (k + 1) front) :
    FitsAll e k (b :: front) := by
  intro j c hj
  cases j with
  | zero =>
    cases hj
    exact hb
  | succ j =>
    have hc := h j c hj
    rwa [Nat.add_right_comm] at hc

/-- One pass: the batches in front of the first one that is too long are called. -/
lemma finishBatches_cases {finished : Bool} (h : finishBatches e bs out = .ok (finished, out')) :
    ∃ front back, bs = front ++ back ∧ FitsAll e out.count front ∧
      Added e.target (fun k b => SpeciesFunction e k (b.members e.species) []) out front out' ∧
      out'.tookRest = out.tookRest ∧
      ((back = [] ∧ finished = true) ∨ ∃ b rest, back = b :: rest ∧ TooLong e (out.count + front.length) b ∧
        finished = (b.stop == e.species.length) ∧
        ∃ f, fileAt out'.files (sourcePath e.target (out.count + front.length)) = some f ∧
          SpeciesFunction e (out.count + front.length) (b.members e.species) [] f) := by
  induction bs generalizing out with
  | nil =>
    cases h
    exact ⟨[], [], rfl, fun j b hj => by simp at hj, .nil _ _ _, rfl, .inl ⟨rfl, rfl⟩⟩
  | cons b bs ih =>
    obtain ⟨steps, hst, h⟩ := bind_eq_ok.1 h
    obtain ⟨files, hfl, h⟩ := bind_eq_ok.1 h
    have hs : speciesFiles e out.count b = .ok files := bind_eq_ok.2 ⟨steps, hst, hfl⟩
    obtain ⟨source, hn, hf⟩ := speciesFiles_numbered hs
    split at h
    · next hl =>
      cases h
      exact ⟨[], b :: bs, rfl, fun j b hj => by simp at hj, (Added.nil _ _ _).leave hn _, rfl,
        .inr ⟨b, bs, rfl, ⟨files, hs, hl⟩, rfl, source, (hn.fileAt _ _).trans (if_pos rfl), hf⟩⟩
    · next hft =>
      have hfs : Added e.target (fun k b => SpeciesFunction e k (b.members e.species) []) out [b]
          (out.add files (finishCall out.count (b.stop == e.species.length && e.lastWritten))) :=
        .single hn rfl hf
      obtain ⟨front, back, rfl, hc, ha, ht, he⟩ := ih h
      rw [hfs.count] at hc he
      refine ⟨b :: front, back, rfl, .cons ⟨files, hs, not_lt.1 hft⟩ hc, hfs.trans ha, ht, ?_⟩
      rwa [length_singleton, Nat.add_assoc, Nat.add_comm 1] at he

variable {rest : List (Item α)}

/-- The functions that the loop adds, pass by pass. Whatever the passes, the function with the first number belongs
to species in the end. -/
lemma splitSpecies_passes (hn : e.species ≠ [])
    (h : splitSpecies e rest length out = .ok out') : ∃ passes ending, Passes e length out.count passes ending ∧
      Added e.target (fun k b => SpeciesFunction e k (b.members e.species) []) out passes.flatten out' ∧
      out'.tookRest = (out.tookRest || ending == .opened) ∧
      ∃ members more f, members ≠ [] ∧ fileAt out'.files (sourcePath e.target out.count) = some f ∧
        SpeciesFunction e out.count members more f := by
  have hsp : e.species.length ≠ 0 := by simpa using hn
  induction length using Nat.strong_induction_on generalizing out with
  | _ length ih =>
    rw [splitSpecies] at h
    split at h
    · next hz =>
      obtain ⟨steps, hst, h⟩ := bind_eq_ok.1 h
      obtain ⟨files, hf, h⟩ := bind_eq_ok.1 h
      cases h
      subst hz
      obtain ⟨source, hnm, hfn⟩ := speciesFunction_of_files hst hf
      exact ⟨[], .opened, .opened, (Added.nil _ _ _).leave hnm true, by simp, e.species.zipIdx, _, source,
        by simpa using hn, (hnm.fileAt _ _).trans (if_pos rfl), hfn⟩
    · next hl =>
      obtain ⟨⟨finished, out₁⟩, hfn, h⟩ := bind_eq_ok.1 h
      obtain ⟨front, back, hb, hc, ha, ht, he⟩ := finishBatches_cases hfn
      -- the first batch of the pass has left its file, whether it is called or not
      have hfst : ∃ members more f, members ≠ [] ∧ fileAt out₁.files (sourcePath e.target out.count) = some f ∧
          SpeciesFunction e out.count members more f := by
        cases front with
        | cons b front =>
          obtain ⟨f, hf, hfn⟩ := ha.source 0 b rfl
          have hst : batches length e.species.length = [] ++ b :: (front ++ back) := hb
          exact ⟨_, _, f, members_ne_nil hl hn hst, hf, hfn⟩
        | nil =>
          obtain ⟨rfl, -⟩ | ⟨b, more, rfl, -, -, f, hf, hfn⟩ := he
          · have := batches_members length e.species hn
            rw [hb] at this
            exact absurd this.symm (by simpa using hn)
          · exact ⟨_, _, f, members_ne_nil hl hn hb, hf, hfn⟩
      obtain ⟨rfl, rfl⟩ | ⟨b, more, rfl, hln, rfl, -⟩ := he
      · cases h
        rw [append_nil] at hb
        subst hb
        exact ⟨_, .complete, .complete hl hc, by simpa using ha, by simp [ht], hfst⟩
      · have hls := (batches_last hl hsp hb).2
        dsimp only at h
        split at h
        · next hs =>
          cases h
          obtain rfl := hls.1 (by simpa using hs)
          exact ⟨_, .dropped, .dropped hl hb hc hln, by simpa using ha, by simp [ht], hfst⟩
        · next hs =>
          obtain ⟨c, more, rfl⟩ := exists_cons_of_ne_nil (mt hls.2 (by simpa using hs))
          obtain ⟨passes, ending, hp, hr, htk, hlt⟩ := ih (length / 2) (by omega) h
          rw [ha.count] at hp hlt
          refine ⟨front :: passes, ending, .again hl hb hc hln hp, ha.trans hr, by rw [htk, ht], ?_⟩
          -- later passes keep the file of a batch that is called
          cases front with
          | nil => exact hlt
          | cons b front => rwa [← hr.kept _ (by rw [ha.count, length_cons]; omega)] at hfst

/-! ## What the passes cover -/

variable {ending : PassEnd}

lemma Passes.reach (hn : e.species ≠ []) {length k : ℕ}
    (h : Passes e length k passes ending) : ∀ p ∈ passes, ∃ r, positions e.species p = List.range r := by
  induction h with
  | complete hl hf =>
    rw [forall_mem_singleton]
    exact ⟨_, positions_front hl hn (append_nil _).symm⟩
  | dropped hl hb hf hln =>
    rw [forall_mem_singleton]
    exact ⟨_, positions_front hl hn hb⟩
  | again hl hb hf hln hr ih =>
    rw [forall_mem_cons]
    exact ⟨⟨_, positions_front hl hn hb⟩, ih⟩
  | opened => exact fun p hp => absurd hp not_mem_nil

lemma Passes.ne_nil {length k : ℕ} (h : Passes e length k passes .complete) : passes ≠ [] := by
  cases h with
  | complete => exact cons_ne_nil _ _
  | again => exact cons_ne_nil _ _

/-- Every species is finished by exactly one called function if and only if the last pass is complete and no
pass before it has called anything. -/
lemma Passes.once_iff (hn : e.species ≠ []) {length k : ℕ} (h : Passes e length k passes ending) :
    (∀ i < e.species.length, (positions e.species passes.flatten).count i = 1) ↔
      ending = .complete ∧ ∀ p ∈ passes.dropLast, p = [] := by
  have hs : e.species.length ≠ 0 := by simpa using hn
  induction h with
  | @complete length k hl hf =>
    have hrn := positions_front hl hn (append_nil _).symm
    have ha : e.species.length ≤ (batches length e.species.length).length * length := by
      rw [batches_of_pos hl hs, length_map, length_range]
      exact le_batches hl _
    rw [flatten_singleton, hrn, min_eq_right ha]
    simp [count_range]
  | @dropped length k front b hl hb hf hln =>
    have hsh := (batches_last hl hs hb).1
    rw [flatten_singleton, positions_front hl hn hb]
    refine iff_of_false (fun ha => ?_) (fun hc => absurd hc.1 (by decide))
    have := ha (e.species.length - 1) (by omega)
    rw [count_range, if_neg (by omega)] at this
    omega
  | @again length k front back b c passes ending hl hb hf hln hr ih =>
    have hsh := (batches_last hl hs hb).1
    have hcn : ∀ i, (positions e.species (front :: passes).flatten).count i =
        (List.range (front.length * length)).count i + (positions e.species passes.flatten).count i := by
      intro i
      rw [flatten_cons, positions_append, count_append, positions_front hl hn hb, min_eq_left hsh.le]
    simp only [hcn]
    constructor
    · intro ha
      -- the last species comes from a later pass, which has the first species too
      have hls := ha (e.species.length - 1) (by omega)
      rw [count_range, if_neg (by omega)] at hls
      have hle := count_positions_le (hr.reach hn) (e.species.length - 1)
      have hfs := ha 0 (by omega)
      have hz : front.length * length = 0 := by
        by_contra hp
        rw [count_range, if_pos (by omega)] at hfs
        omega
      rw [hz] at ha
      obtain ⟨rfl, he⟩ := ih.1 fun i hi => by simpa using ha i hi
      refine ⟨rfl, ?_⟩
      rw [dropLast_cons_of_ne_nil hr.ne_nil, forall_mem_cons]
      exact ⟨length_eq_zero_iff.1 ((Nat.mul_eq_zero.1 hz).resolve_right hl), he⟩
    · rintro ⟨rfl, he⟩
      rw [dropLast_cons_of_ne_nil hr.ne_nil, forall_mem_cons] at he
      intro i hi
      rw [he.1, length_nil, Nat.zero_mul, range_zero, count_nil, Nat.zero_add]
      exact ih.2 ⟨rfl, he.2⟩ i hi
  | opened =>
    refine iff_of_false (fun ha => ?_) (fun hc => absurd hc.1 (by decide))
    have := ha 0 (by omega)
    cases this

end Species

end Kinetics.Jacobian
