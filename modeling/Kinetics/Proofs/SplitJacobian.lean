import Kinetics.Proofs.FilesExist
import Kinetics.Proofs.SplitLoops
/-!
# Which functions of a split Jacobian are called

`reaction_functions` and `finishing_functions` say what the main function of a split Jacobian
calls and what stands in the files of the called functions. Every reaction stands in exactly
one called function unless the file of all reactions together is too long. Every species is
finished in exactly one called function if and only if the first pass over the species that
calls anything is complete.

With a limit of one line no file fits, and the main function calls no numbered function at all
(`isomer_reactions_lost`, `isomer_species_lost`).
-/

open List

namespace Kinetics.Jacobian

open Code Emit

/-! ## Names in the main function -/

section Names
variable {α : Type}

lemma functionName_not_mem (reactions : List (Reaction ℕ α)) (k : ℕ) :
    functionName k ∉ startCalls reactions ∧ functionName k ∉ ["eval_h", "eval_cp"] := by
  have hl : (functionName k).toList[5]? = some 'j' := by simp [functionName]
  have hs : ∀ name ∈ startCalls reactions, name.toList[5]? ≠ some 'j' := by
    unfold startCalls
    split <;> decide
  have hm : ∀ name ∈ ["eval_h", "eval_cp"], name.toList[5]? ≠ some 'j' := by decide
  exact ⟨fun hmem => hs _ hmem hl, fun hmem => hm _ hmem hl⟩

lemma called_nodup (reactions : List (Reaction ℕ α)) (m n : ℕ) :
    (startCalls reactions ++ (List.range m).map functionName ++ ["eval_h", "eval_cp"] ++
      (List.range' m n).map functionName).Nodup := by
  have hi : Function.Injective functionName := fun _ _ => functionName_injective
  have hs : (startCalls reactions ++ ["eval_h", "eval_cp"]).Nodup := by
    unfold startCalls
    split <;> decide
  have hnm : ((List.range (m + n)).map functionName).Nodup := nodup_range.map hi
  have hall : ((startCalls reactions ++ ["eval_h", "eval_cp"]) ++ (List.range (m + n)).map functionName).Nodup := by
    refine hs.append hnm fun name hna hnb => ?_
    obtain ⟨k, -, rfl⟩ := mem_map.1 hnb
    have hn := functionName_not_mem reactions k
    exact (mem_append.1 hna).elim hn.1 hn.2
  refine List.Perm.nodup ?_ hall
  rw [range_eq_range', ← List.range'_append_1, map_append, range_eq_range', Nat.zero_add]
  simp only [← append_assoc]
  refine List.Perm.append_right _ ?_
  simp only [append_assoc]
  exact perm_append_comm.append_left _

end Names

/-! ## Calls and files of both loops -/

section Functions
variable {α : Type} [Arithmetic α] [Written α] {t : Target} {limits : Limits} {species : List (Species α)}
variable {reactions : List (Reaction ℕ α)} {produced : List Bool} {files : List (SourceFile α)}
variable {entries : List Bool}

/-- What both loops leave in the files. The reactions of each group share a function, with the numbers from
zero on, and each batch of a pass over the species has the next number. -/
structure SplitFunctions (t : Target) (limits : Limits) (e : LoopSetting α) (f : FinishSetting α)
    (files : List (SourceFile α)) (m : ℕ) (groups : List (List (Reaction ℕ α × ℕ))) (passes : List (List Batch))
    (ending : PassEnd) (body : List (Item α)) : Prop where
  retried : ∀ i < m, FirstTooLong t limits.reactionLines e (limits.reactionBatch.toNat / 2 ^ i)
  grouped : ¬FirstTooLong t limits.reactionLines e (limits.reactionBatch.toNat / 2 ^ m) →
    groups = (batches (limits.reactionBatch.toNat / 2 ^ m : ℕ) e.reactions.length).map (·.members e.reactions)
  stranded : FirstTooLong t limits.reactionLines e (limits.reactionBatch.toNat / 2 ^ m) →
    limits.reactionBatch.toNat / 2 ^ m = 0 ∧ groups = []
  passed : Passes f limits.speciesBatch.toNat groups.length passes ending
  main : HasMain t files body (if ending = .opened then "" else mainClosing)
  calls : called body = startCalls e.reactions ++ (List.range groups.length).map functionName ++
    ["eval_h", "eval_cp"] ++ (List.range' groups.length passes.flatten.length).map functionName
  reactionFile : ∀ j members, groups[j]? = some members →
    ∃ file, fileAt files (sourcePath t j) = some file ∧ ReactionFunction e j members file
  speciesFile : ∀ j b, passes.flatten[j]? = some b →
    ∃ file, fileAt files (sourcePath t (groups.length + j)) = some file ∧
      SpeciesFunction f (groups.length + j) (b.members f.species) [] file
  firstFile : ∃ members more file, members ≠ [] ∧ fileAt files (sourcePath t groups.length) = some file ∧
    SpeciesFunction f groups.length members more file

lemma jacobianFiles_functions (h : jacobianFiles t limits species reactions produced = .ok (files, entries))
    (hs : limits.reactionBatch < reactions.length) :
    ∃ m groups progress passes ending body, SplitFunctions t limits ⟨species, reactions, true⟩
      ⟨t, species, produced, progress, limits.speciesLines⟩ files m groups passes ending body := by
  obtain ⟨-, hr, hsp⟩ := jacobianFiles_inhabited h
  have hn : species ≠ [] := by simpa using hsp
  obtain ⟨state, loop, rest, parts, body, hl, hp, hm, hfl, hcl⟩ := jacobianFiles_split h hs
  obtain ⟨m, groups, hb, hg, ht, hft, hln⟩ := splitReactions_groups (by simpa using hr) hl
  obtain ⟨passes, ending, hps, hfs, ho, members, more, f, hmm, hfst, hfn⟩ := splitSpecies_passes hn hp
  have hc : loop.count = groups.length := by
    rw [hg.count]
    exact Nat.zero_add _
  rw [hc] at hps hfst hfn
  refine ⟨m, groups, state.progress, passes, ending, body, {
    retried := hb
    grouped := fun h => (hft h).2
    stranded := hln
    passed := hps
    main := ?_
    calls := ?_
    reactionFile := ?_
    speciesFile := ?_
    firstFile := ⟨members, more, f, hmm, (hfl _).trans hfst, hfn⟩ }⟩
  · have hfd : ∀ f ∈ parts.files, ∃ path, f.path = "jacobs/" ++ path := by
      intro f hf
      obtain hf | hf := hfs.folder f hf
      · exact (hg.folder f hf).resolve_left not_mem_nil
      · exact hf
    have hm := hm hfd
    rw [ho, ht, Bool.false_or] at hm
    simpa using hm
  · obtain ⟨calls, hcs, hns⟩ := hg.calls
    obtain ⟨calls', hc', hn'⟩ := hfs.calls
    rw [hcl, hc', drop_left, hn', hc, hcs, filterMap_append, hns]
    simp [range_eq_range']
  · intro j members hj
    have hlt : j < groups.length := (List.getElem?_eq_some_iff.1 hj).1
    obtain ⟨f, hf, hfn⟩ := hg.source j members hj
    simp only [Nat.zero_add] at hf hfn
    exact ⟨f, by rw [hfl, hfs.kept j (by omega), hf], hfn⟩
  · intro j b hj
    obtain ⟨f, hf, hfn⟩ := hfs.source j b hj
    rw [hc] at hf hfn
    exact ⟨f, (hfl _).trans hf, hfn⟩

/-- Reactions in a split Jacobian. The length of batches is halved `m` times. The called functions together
hold every reaction once and in order, unless the file of all reactions is still too long: then no function
of reactions is called, and the file has given way to one of species. -/
theorem reaction_functions (h : jacobianFiles t limits species reactions produced = .ok (files, entries))
    (hsplit : limits.reactionBatch < reactions.length) :
    ∃ m groups others body closing, HasMain t files body closing ∧
      called body = startCalls reactions ++ (List.range groups.length).map functionName ++ ["eval_h", "eval_cp"] ++
        (List.range' groups.length others).map functionName ∧
      (called body).Nodup ∧
      (∀ j members, groups[j]? = some members → ∃ f, fileAt files (sourcePath t j) = some f ∧
        ReactionFunction ⟨species, reactions, true⟩ j members f) ∧
      (∀ i < m, FirstTooLong t limits.reactionLines ⟨species, reactions, true⟩ (limits.reactionBatch.toNat / 2 ^ i)) ∧
      (groups.flatten = reactions.zipIdx ↔
        ¬FirstTooLong t limits.reactionLines ⟨species, reactions, true⟩ (limits.reactionBatch.toNat / 2 ^ m)) ∧
      (FirstTooLong t limits.reactionLines ⟨species, reactions, true⟩ (limits.reactionBatch.toNat / 2 ^ m) →
        limits.reactionBatch.toNat / 2 ^ m = 0 ∧ groups = [] ∧ ∃ progress members more f, members ≠ [] ∧
          fileAt files (sourcePath t 0) = some f ∧
          SpeciesFunction ⟨t, species, produced, progress, limits.speciesLines⟩ 0 members more f) := by
  obtain ⟨-, hreactions, -⟩ := jacobianFiles_inhabited h
  have hne : reactions ≠ [] := by simpa using hreactions
  obtain ⟨m, groups, progress, passes, ending, body, hf⟩ := jacobianFiles_functions h hsplit
  refine ⟨m, groups, _, body, _, hf.main, hf.calls, ?_, hf.reactionFile, hf.retried, ⟨?_, ?_⟩, ?_⟩
  · rw [hf.calls]
    exact called_nodup _ _ _
  · intro hall hlong
    rw [(hf.stranded hlong).2] at hall
    exact hne (by simpa using hall.symm)
  · intro hfits
    rw [hf.grouped hfits]
    exact batches_members _ _ hne
  · intro hlong
    obtain ⟨hzero, rfl⟩ := hf.stranded hlong
    obtain ⟨members, more, f, hmembers, hfile, hfunction⟩ := hf.firstFile
    exact ⟨hzero, rfl, progress, members, more, f, hmembers, hfile, hfunction⟩

/-- Species in a split Jacobian, in passes over all species with a length that is halved from one to the
next. The called functions together finish every species once if and only if the last pass is complete and
no pass before it has called a function. -/
theorem finishing_functions (h : jacobianFiles t limits species reactions produced = .ok (files, entries))
    (hsplit : limits.reactionBatch < reactions.length) :
    ∃ first progress passes ending body,
      Passes ⟨t, species, produced, progress, limits.speciesLines⟩ limits.speciesBatch.toNat first passes ending ∧
      HasMain t files body (if ending = .opened then "" else mainClosing) ∧
      called body = startCalls reactions ++ (List.range first).map functionName ++ ["eval_h", "eval_cp"] ++
        (List.range' first passes.flatten.length).map functionName ∧
      (called body).Nodup ∧
      (∀ j b, passes.flatten[j]? = some b → ∃ f, fileAt files (sourcePath t (first + j)) = some f ∧
        SpeciesFunction ⟨t, species, produced, progress, limits.speciesLines⟩ (first + j) (b.members species) [] f) ∧
      ((∀ k < species.length, (positions species passes.flatten).count k = 1) ↔
        ending = .complete ∧ ∀ p ∈ passes.dropLast, p = []) := by
  obtain ⟨-, -, hspecies⟩ := jacobianFiles_inhabited h
  obtain ⟨m, groups, progress, passes, ending, body, hf⟩ := jacobianFiles_functions h hsplit
  refine ⟨groups.length, progress, passes, ending, body, hf.passed, hf.main, hf.calls, ?_, hf.speciesFile, ?_⟩
  · rw [hf.calls]
    exact called_nodup _ _ _
  · exact hf.passed.once_iff (by simpa using hspecies)

end Functions

/-! ## Isomers with a limit of one line -/

section Isomers

lemma le_lineCount (s : String) : s.toList.countP (· == '\n') ≤ lineCount s := by
  unfold lineCount
  dsimp only
  cases hs : s.toList using List.reverseRecOn with
  | nil => simp
  | append_singleton cs c =>
    rw [List.getLast?_concat]
    dsimp only
    split <;> omega

lemma two_le_lineCount {f : SourceFile Exact} {text : String} {head : Signature} {body : List (Item Exact)}
    (h : f.parts = [.text text, .function head body batchClosing]) : 2 ≤ lineCount f.text := by
  refine le_trans ?_ (le_lineCount _)
  rw [SourceFile.text, h]
  simp only [foldl_cons, foldl_nil, FilePart.render, Pen.finish, String.toList_append, countP_append]
  exact Nat.le_add_left _ _

variable {e : FinishSetting Exact}

lemma not_fits (hl : e.lines ≤ 1) (k : ℕ) (b : Batch) : ¬Fits e k b := by
  rintro ⟨files, hf, hle⟩
  obtain ⟨steps, -, hf⟩ := bind_eq_ok.1 hf
  obtain ⟨source, hn, text, head, -, hp⟩ := numberedFiles_numbered (yields_ok.2 rfl) hf
  have := two_le_lineCount hp
  rw [hn.sourceLines] at hle
  omega

lemma Passes.opened_of_limit (hln : e.lines ≤ 1) {length k : ℕ}
    {passes : List (List Batch)} {ending : PassEnd} (h : Passes e length k passes ending)
    (hn : length < e.species.length) : ending = .opened ∧ passes.flatten = [] := by
  have hnn : ∀ {k front}, FitsAll e k front → front = [] := by
    intro k front hf
    cases front with
    | nil => rfl
    | cons b front => exact absurd (hf 0 b rfl) (not_fits hln _ _)
  have hs : ∀ {length : ℕ}, length ≠ 0 → length < e.species.length → 1 < (batches length e.species.length).length := by
    intro length hl hlt
    rw [batches_of_pos hl (Nat.ne_of_gt (Nat.zero_lt_of_lt hlt)), length_map, length_range]
    by_contra hfew
    have hle := le_batches hl e.species.length
    have hmul := Nat.mul_le_mul_right length (not_lt.1 hfew)
    omega
  induction h with
  | complete hl hf => exact absurd (hs hl hn) (by simp [hnn hf])
  | dropped hl hb hf hlg =>
    exact absurd (hs hl hn) (by simp [hb, hnn hf])
  | again hl hb hf hlg hr ih =>
    obtain ⟨ho, he⟩ := ih (by omega)
    exact ⟨ho, by rw [flatten_cons, hnn hf, he]; rfl⟩
  | opened => exact ⟨rfl, rfl⟩

lemma firstTooLong_of_limit {t : Target} (ht : t.language = .c) {species : List (Species Exact)}
    {reactions : List (Reaction ℕ Exact)} (h : SimpleMechanism species reactions) (hne : reactions ≠ []) {lines : ℤ}
    (hl : lines ≤ 1) (length : ℕ) : FirstTooLong t lines ⟨species, reactions, true⟩ length := by
  obtain ⟨⟨s, out⟩, hall⟩ := reactionBatches_ok ht h (batches length reactions.length)
    (s := { bank := t.freshBank }) (freshBank_eq_none ht) {}
  refine ⟨s, out, hall, ?_⟩
  cases hb : batches (length : ℤ) reactions.length with
  | nil =>
    have hm := batches_members length reactions hne
    rw [hb] at hm
    exact absurd hm.symm (by simpa using hne)
  | cons b bs =>
    rw [hb] at hall
    obtain ⟨needs, -, hall⟩ := bind_eq_ok.1 hall
    obtain ⟨⟨s₁, items⟩, -, hall⟩ := bind_eq_ok.1 hall
    obtain ⟨files, hf, hall⟩ := bind_eq_ok.1 hall
    obtain ⟨source, hn, text, head, -, hp⟩ := numberedFiles_numbered (batchSignature_name _ _ _ _) hf
    have := two_le_lineCount hp
    obtain ⟨-, -, more, hmr⟩ := reactionBatches_added hall
    have hfst : out.files.take 2 = files := by
      obtain ⟨he, suffix, -, -, rfl⟩ := hn.pair
      rw [hmr]
      rfl
    rw [hfst, hn.sourceLines]
    omega

lemma isomers_mechanism : SimpleMechanism isomers isomerizations where
  several := by decide
  weights := isomers_weights
  reactions := by
    simp only [isomerizations, forall_mem_cons, not_mem_nil, false_imp_iff, implies_true, and_true]
    exact ⟨isomerization_simple (by decide) (by decide), isomerization_simple (by decide) (by decide)⟩

theorem isomer_reactions_lost : ∃ files entries others body closing,
    jacobianFiles { language := .c } ⟨1, 1, 1, 1⟩ isomers isomerizations [true, true] = .ok (files, entries) ∧
    HasMain { language := .c } files body closing ∧
    called body = startCalls isomerizations ++ ["eval_h", "eval_cp"] ++ (List.range' 0 others).map functionName ∧
    ∃ progress members more f, members ≠ [] ∧ fileAt files (sourcePath { language := .c } 0) = some f ∧
      SpeciesFunction ⟨{ language := .c }, isomers, [true, true], progress, 1⟩ 0 members more f := by
  obtain ⟨files, entries, h⟩ := jacobianFiles_ok (t := { language := .c }) rfl isomers_mechanism
    (by simp [isomerizations]) (show [true, true].length = isomers.length from rfl) ⟨1, 1, 1, 1⟩
  obtain ⟨m, groups, others, body, closing, hmain, hcalled, -, -, -, -, hlost⟩ := reaction_functions h (by decide)
  obtain ⟨-, rfl, hfirst⟩ := hlost (firstTooLong_of_limit rfl isomers_mechanism (by simp [isomerizations]) le_rfl _)
  exact ⟨files, entries, others, body, closing, h, hmain, by simpa using hcalled, hfirst⟩

theorem isomer_species_lost : ∃ files entries first body,
    jacobianFiles { language := .c } ⟨1, 1, 1, 1⟩ isomers isomerizations [true, true] = .ok (files, entries) ∧
    HasMain { language := .c } files body "" ∧
    called body = startCalls isomerizations ++ (List.range first).map functionName ++ ["eval_h", "eval_cp"] := by
  obtain ⟨files, entries, h⟩ := jacobianFiles_ok (t := { language := .c }) rfl isomers_mechanism
    (by simp [isomerizations]) (show [true, true].length = isomers.length from rfl) ⟨1, 1, 1, 1⟩
  obtain ⟨first, progress, passes, ending, body, hpasses, hmain, hcalled, -, -, -⟩ := finishing_functions h (by decide)
  obtain ⟨rfl, hnone⟩ := hpasses.opened_of_limit le_rfl (Nat.lt_succ_self 1)
  rw [hnone] at hcalled
  exact ⟨files, entries, first, body, h, hmain, by simpa using hcalled⟩

end Isomers

end Kinetics.Jacobian
