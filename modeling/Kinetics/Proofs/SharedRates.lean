import Kinetics.Proofs.MatrixColumns
import Kinetics.Proofs.PlacedCode
import Kinetics.Proofs.RateCode
import Kinetics.Proofs.RunningCode
import Kinetics.Proofs.SharedSlots
import Kinetics.Proofs.SpeciesMasks
/-!
# Rates with and without shared memory

The files of reaction rates and of pressure modifications are the same with a shared
memory as without one, apart from the slots that their functions read. As every slot
holds a copy of the concentration that it is read for, each function computes the same
(`reactionRateFiles_matches`, `modificationFile_matches`).
-/

open List

namespace Kinetics.Code

open Accelerator

noncomputable section

/-! ## Functions in files -/

/-- The body of the first function with a name among all files. -/
def linkedBody (files : List (SourceFile Exact)) (name : String) : Option (List (Item Exact)) :=
  files.findSome? (Emit.functionBody name)

/-- Calls of functions that call no others. Arguments have the names of the parameters that they are passed for. -/
def calledIn (files : List (SourceFile Exact)) : Callees :=
  fun f _ σ => (linkedBody files f).bind (perform (fun _ _ _ => none) σ)

/-- What a function of some files makes of the memory. -/
def evaluate (files : List (SourceFile Exact)) (name : String) (σ : Memory) : Option Memory :=
  (linkedBody files name).bind (perform (calledIn files) σ)

/-! ## Code that goes along with other code -/

/-- From the same variables and arrays two functions end with the same ones. -/
abbrev SameResult (f g : Memory → Option Memory) : Prop := ∀ σ τ, SameCells σ τ → Option.Rel SameCells (f σ) (g τ)

/-- Whatever the functions do that they call, two bodies end with the same variables and arrays. -/
def Follows (body body' : List (Item Exact)) : Prop :=
  ∀ cs cs' : Callees, (∀ f arguments, SameResult (cs f arguments) (cs' f arguments)) →
    SameResult (perform cs · body) (perform cs' · body')

variable {xs xs' ys ys' : List (Item Exact)}

lemma Follows.append (h : Follows xs xs') (h' : Follows ys ys') : Follows (xs ++ ys) (xs' ++ ys') := by
  intro cs cs' hcs σ τ hs
  simp only [perform_append]
  exact rel_bind (h cs cs' hcs σ τ hs) fun σ₁ τ₁ h₁ => h' cs cs' hcs σ₁ τ₁ h₁

/-- Two bodies that always end, with the same change to the memory. -/
lemma follows_of_run {f : Memory → Memory} (hf : ∀ σ τ, SameCells σ τ → SameCells (f σ) (f τ))
    (h : ∀ σ, runItems σ xs = some (f σ)) (h' : ∀ σ, runItems σ xs' = some (f σ)) : Follows xs xs' := by
  intro cs cs' _ σ τ hs
  simp only [perform_of_runItems cs (h σ), perform_of_runItems cs' (h' τ)]
  exact .some (hf σ τ hs)

lemma follows_calls (h : ∀ i ∈ xs, i.isCall = true) : Follows xs xs := by
  intro cs cs' hcs
  induction xs with
  | nil => exact fun σ τ hs => .some hs
  | cons i rest ih =>
    rw [forall_mem_cons] at h
    intro σ τ hs
    refine rel_bind ?_ fun σ₁ τ₁ h₁ => ih h.2 σ₁ τ₁ h₁
    cases i with
    | step s =>
      cases s with
      | call indent f spaced arguments => exact hcs f arguments σ τ hs
      | _ => cases h.1
    | _ => cases h.1

variable {array : String}

lemma isCall_of_reads {i : Item Exact} (h : i.Fits (readingGrammar array)) : i.isCall = false := by
  cases i with
  | step s =>
    cases s with
    | call => exact h.1.elim
    | _ => rfl
  | _ => rfl

/-- Code that leaves an array alone goes along with what placing it gives. -/
lemma placeWith_matches (b : Bank) (h : ∀ i ∈ xs, i.Fits (readingGrammar array)) :
    Matches (fun r r' : Option Bank × List (Item Exact) => Follows r.2 r'.2)
      (placeWith none xs) (placeWith (some b.reset) xs) := by
  have hs : b.reset.Sound (cached array) := Bank.reset_sound b false
  obtain ⟨b', placed, hp, hr⟩ := placeItems_placed hs h
  have hsh : placeWith (some b.reset) xs = .ok (some b', placed) := by
    simp only [placeWith, hp]
    rfl
  rw [hsh]
  refine .ok fun cs cs' _ σ τ hsm => ?_
  simp only [perform_eq_runItems cs fun i hi => isCall_of_reads (h i hi), perform_eq_runItems cs' hr.callless]
  -- no slot is held at first
  have hst : Banked array b.reset τ := ⟨hs, by simp [Bank.table, Bank.reset]⟩
  exact rel_imp (hr.runs σ τ hsm hst) fun _ _ he => he.1

/-! ## Files that go along with other files -/

/-- Two parts are no functions, or they are functions with the same head whose bodies go along. -/
inductive SamePart : FilePart Exact → FilePart Exact → Prop
  | text (s s' : String) : SamePart (.text s) (.text s')
  | prototype (s : Signature) : SamePart (.prototype s) (.prototype s)
  | function (head : Signature) {body body' : List (Item Exact)} (closing : String) (h : Follows body body') :
    SamePart (.function head body closing) (.function head body' closing)

def SameFile (f f' : SourceFile Exact) : Prop := List.Forall₂ SamePart f.parts f'.parts

lemma rel_findSome? {β γ δ ζ : Type} {R : β → γ → Prop} {Q : δ → ζ → Prop} {f : β → Option δ} {g : γ → Option ζ}
    {bs : List β} {cs : List γ} (h : List.Forall₂ R bs cs) (hf : ∀ b c, R b c → Option.Rel Q (f b) (g c)) :
    Option.Rel Q (bs.findSome? f) (cs.findSome? g) := by
  induction h with
  | nil => exact .none
  | @cons b c bs cs hbc _ ih =>
    rw [List.findSome?_cons, List.findSome?_cons]
    have hfs := hf b c hbc
    generalize f b = x at hfs ⊢
    generalize g c = y at hfs ⊢
    cases hfs with
    | some hq => exact .some hq
    | none => exact ih

variable {files files' : List (SourceFile Exact)}

lemma linkedBody_rel (h : List.Forall₂ SameFile files files') (name : String) :
    Option.Rel Follows (linkedBody files name) (linkedBody files' name) := by
  refine rel_findSome? h fun f f' hp => ?_
  refine rel_findSome? hp fun part part' hpr => ?_
  cases hpr with
  | text s s' => exact .none
  | prototype s => exact .none
  | function he closing hb =>
    dsimp only
    by_cases hn : he.name = name
    · rw [if_pos hn, if_pos hn]
      exact .some hb
    · rw [if_neg hn, if_neg hn]
      exact .none

lemma evaluate_same (h : List.Forall₂ SameFile files files') (name : String) :
    SameResult (evaluate files name) (evaluate files' name) := by
  have hc : ∀ f arguments, SameResult (calledIn files f arguments) (calledIn files' f arguments) := by
    intro f arguments σ τ hs
    refine rel_bind (linkedBody_rel h f) fun body body' hb => ?_
    exact hb _ _ (fun _ _ _ _ _ => .none) σ τ hs
  intro σ τ hs
  refine rel_bind (linkedBody_rel h name) fun body body' hb => ?_
  exact hb _ _ hc σ τ hs

end

end Kinetics.Code

namespace Kinetics.Emit

open Code Accelerator Jacobian

noncomputable section

/-! ## Files of reaction rates -/

/-- A target on the accelerator, with or without a shared memory. -/
def device (differentiable : Bool) (bank : Option Bank) : Target := { language := .cuda, differentiable, bank }

variable (d : Bool) (b : Bank) (species : List (Species Exact)) (reactions : List (Reaction ℕ Exact)) (labels : List ℤ)

variable {σ τ : Memory}

lemma sameCells_logT (h : SameCells σ τ) : SameCells (withLog σ) (withLog τ) := by
  have hT : τ.var "T" = σ.var "T" := h "T" none
  rw [withLog, withLog, hT]
  exact h.update _ _

lemma rateIntro_follows (reversible : Bool) (declared : List (Reaction ℕ Exact)) :
    Follows ((rateIntro (device d none) reversible declared).map .step)
      ((rateIntro (device d (some b)) reversible declared).map .step) :=
  follows_of_run (fun _ _ => sameCells_logT)
    (fun σ => by rw [runItems_steps, rateIntro_run]) (fun σ => by rw [runItems_steps, rateIntro_run])

lemma wholeRateFile_matches : Matches SameFile (wholeRateFile (device d none) species reactions labels)
    (wholeRateFile (device d (some b)) species reactions labels) := by
  refine matches_bind (batchRateItems_reads species reactions labels _) fun items hi => ?_
  refine (placeWith_matches b hi).bind fun r r' hr => ?_
  refine matches_same fun includes => matches_same fun he => .ok ?_
  refine .cons (.text _ _) (.cons (.text _ _) (.cons (.function he _ ?_) .nil))
  exact (rateIntro_follows d b _ reactions).append hr

lemma rateBatchFile_matches (batch : Batch) (k : ℕ) :
    Matches SameFile (rateBatchFile (device d none) species reactions labels batch k)
      (rateBatchFile (device d (some b)) species reactions labels batch k) := by
  refine matches_bind (batchRateItems_reads species reactions labels batch) fun items hi => ?_
  refine (placeWith_matches b hi).bind fun r r' hr => ?_
  refine matches_same fun includes => matches_same fun he => .ok ?_
  refine .cons (.text _ _) (.cons (.function he _ ?_) .nil)
  exact (rateIntro_follows d b _ _).append hr

lemma callingRateFile_matches (count : ℕ) : Matches SameFile (callingRateFile (device d none) reactions count)
      (callingRateFile (device d (some b)) reactions count) := by
  refine matches_same fun includes => matches_same fun he => .ok ?_
  refine .cons (.text _ _) (.cons (.function he _ (follows_calls ?_)) .nil)
  exact forall_mem_map.2 fun k _ => rfl

lemma ratesHeader_matches :
    Matches SameFile (ratesHeader (device d none) reactions) (ratesHeader (device d (some b)) reactions) := by
  refine matches_same fun suffix => matches_same fun he => matches_same fun rates => matches_same fun produced => .ok ?_
  cases reactions.any (·.isModified)
  · exact .cons (.text _ _) (.cons (.text _ _) (.cons (.text _ _) (.cons (.prototype _) (.cons (.prototype _)
      (.cons (.text _ _) .nil)))))
  · exact .cons (.text _ _) (.cons (.text _ _) (.cons (.text _ _) (.cons (.prototype _) (.cons (.prototype _)
      (.cons (.prototype _) (.cons (.text _ _) .nil))))))

lemma rateBatchHeader_matches (k : ℕ) :
    Matches SameFile (rateBatchHeader (device d none) reactions k) (rateBatchHeader (device d (some b)) reactions k) := by
  refine matches_same fun suffix => matches_same fun he => .ok ?_
  exact .cons (.text _ _) (.cons (.prototype _) (.cons (.text _ _) .nil))

lemma rateIncludeFile_matches (count : ℕ) :
    Matches SameFile (rateIncludeFile (device d none) count) (rateIncludeFile (device d (some b)) count) :=
  matches_same fun _ => .ok (.cons (.text _ _) .nil)

/-- With a shared memory there are the same files of reaction rates as without one, and they compute the same. -/
lemma reactionRateFiles_matches (batchLength : ℤ) :
    Matches (List.Forall₂ SameFile) (reactionRateFiles (device d none) batchLength species reactions labels)
      (reactionRateFiles (device d (some b)) batchLength species reactions labels) := by
  refine (ratesHeader_matches d b reactions).bind fun he he' hh => ?_
  have hd : ∀ bank, (device d bank).onDevice = true := fun _ => rfl
  simp only [hd, Bool.true_and]
  split
  · refine (matches_mapM fun x _ => rateBatchFile_matches d b species reactions labels x.1 x.2).bind
      fun sources sources' hs => ?_
    refine (matches_mapM fun k _ => rateBatchHeader_matches d b reactions k).bind fun hed hed' hhd => ?_
    refine (callingRateFile_matches d b reactions _).bind fun main main' hm => ?_
    refine (rateIncludeFile_matches d b _).bind fun included included' hi => .ok ?_
    have hl : ∀ n, SameFile (rateListFile (device d none) n) (rateListFile (device d (some b)) n) := fun n =>
      .cons (.text _ _) .nil
    exact rel_append (rel_append (rel_append (.cons hh (.cons hm .nil)) hs) hhd) (.cons hi (.cons (hl _) .nil))
  · exact (wholeRateFile_matches d b species reactions labels).bind fun main main' hm =>
      .ok (.cons hh (.cons hm .nil))

/-! ## The file of pressure modifications -/

lemma declareGroup_run (bank : Option Bank) (title : String) (names : List String) (σ : Memory) :
    runSteps σ (declareGroup (device d bank) title names) = some σ := by
  have hn : runSteps σ (declareReals (device d bank) names) = some σ := by
    induction names with
    | nil => rfl
    | cons n names ih => exact ih
  change runSteps σ (declareReals (device d bank) names ++ [.blank]) = some σ
  rw [runSteps_append, hn]
  rfl

lemma modificationDeclarations_run (bank : Option Bank) (σ : Memory) :
    runSteps σ (modificationDeclarations (device d bank) reactions) = some σ := by
  have hg : ∀ (test : Bool) (title : String) (names : List String),
      runSteps σ (if test then declareGroup (device d bank) title names else []) = some σ := by
    intro test title names
    cases test
    · rfl
    · exact declareGroup_run d bank title names σ
  have hl : (device d bank).language = .cuda := rfl
  simp only [modificationDeclarations, hl, runSteps_append, hg, Option.bind_some]
  split
  · rfl
  · rw [runSteps_append, runSteps_append, declareGroup_run, Option.bind_some, hg, Option.bind_some, hg]

lemma sameCells_start (h : SameCells σ τ) : SameCells (withMoles σ) (withMoles τ) := by
  have hT : τ.var "T" = σ.var "T" := h "T" none
  have hp : τ.var "pres" = σ.var "pres" := h "pres" none
  rw [withMoles, withMoles, hT, hp]
  exact (sameCells_logT h).update _ _

/-- With a shared memory there is the same file of pressure modifications as without one, and it computes the same. -/
lemma modificationFile_matches : Matches SameFile (modificationFile (device d none) species reactions labels)
      (modificationFile (device d (some b)) species reactions labels) := by
  have hs : ∀ (bank : Option Bank) (lines : List (Step Exact)) (σ : Memory), runSteps σ lines = some σ →
      runItems σ ((lines ++ modificationDeclarations (device d bank) reactions ++
        modificationStart (device d bank)).map .step) = runSteps σ (modificationStart (device d bank)) := by
    intro bank lines σ hl
    rw [runItems_steps, runSteps_append, runSteps_append, hl, Option.bind_some, modificationDeclarations_run,
      Option.bind_some]
  refine matches_bind (allModificationItems_reads .cuda reactions labels) fun items hi => ?_
  refine (placeWith_matches b hi).bind fun r r' hr => ?_
  refine Matches.bind (R := SamePart) ?_ fun part part' hp => ?_
  · refine matches_same fun he => .ok (.function he _ (Follows.append ?_ hr))
    refine follows_of_run (fun _ _ => sameCells_start) (fun σ => ?_) fun σ => ?_
    · rw [← modificationStart_run (device d none)]
      exact hs none [] σ rfl
    · rw [← modificationStart_run (device d (some b))]
      exact hs (some b) [.line _] σ rfl
  · exact matches_same fun includes => .ok (.cons (.text _ _) (.cons hp .nil))

/-! ## Copies in all calls and in all rate code -/

/-- After any calls with indexed locations, an address that is read in place of an element was last stored with this
element, so its slot holds a copy. Hence the rate functions compute the same with a shared memory as without one. -/
theorem copies_never_stale : (∀ {α : Type} [Arithmetic α] (b last : Bank) (cs : List (Call α)) (log : List (Event α)),
      (∀ c ∈ cs, ∀ l ∈ c.locations, l.index ≠ none) → b.reset.calls cs = .ok (last, log) →
      ∀ (l : Location) (k : ℕ), l.index ≠ none → (last.access l).2 = (Slot.numbered k).address →
        (∃ h, lastStore (log.flatMap Event.stored) (last.access l).2 = some h ∧
          h.location.array = l.array ∧ h.location.index = l.index) ∧
        ∀ σ : Memory, ∃ τ, runItems σ ((log.flatMap Event.stored).map fun h => .step (loadStep h)) = some τ ∧
          τ (.slot (last.access l).2) = σ (.cell l.array l.index)) ∧
    (∀ (d : Bool) (b : Bank) (batchLength : ℤ) (species : List (Species Exact))
      (reactions : List (Reaction ℕ Exact)) (labels : List ℤ),
      Matches (fun files files' => ∀ name, SameResult (evaluate files name) (evaluate files' name))
        (reactionRateFiles (device d none) batchLength species reactions labels)
        (reactionRateFiles (device d (some b)) batchLength species reactions labels)) ∧
    ∀ (d : Bool) (b : Bank) (species : List (Species Exact)) (reactions : List (Reaction ℕ Exact)) (labels : List ℤ),
      Matches (fun file file' => ∀ name, SameResult (evaluate [file] name) (evaluate [file'] name))
        (modificationFile (device d none) species reactions labels)
        (modificationFile (device d (some b)) species reactions labels) := by
  refine ⟨?_, fun d b batchLength species reactions labels => ?_, fun d b species reactions labels => ?_⟩
  · intro α _ b last cs log hindexed hrun l k hl hread
    have hstart : ({ b.reset with watched := false } : Bank).calls cs = .ok (last, log) := hrun
    obtain ⟨h, hlast, harray, hindex⟩ := Bank.reset_calls_fresh hindexed hstart hl hread
    refine ⟨⟨h, hlast, harray, hindex⟩, fun σ => ?_⟩
    obtain ⟨τ, hτ, -, hslots⟩ := runItems_loads (log.flatMap Event.stored) σ
    refine ⟨τ, hτ, ?_⟩
    rw [hslots, hlast, ← harray, ← hindex]
    rfl
  · exact (reactionRateFiles_matches d b species reactions labels batchLength).imp fun _ _ h => evaluate_same h
  · exact (modificationFile_matches d b species reactions labels).imp fun _ _ h => evaluate_same (.cons h .nil)

def reusingCalls : List (Call Scalar) :=
  [.load [⟨"C", some 0, .cuda⟩, ⟨"C", some 1, .cuda⟩, ⟨"C", some 2, .cuda⟩, ⟨"C", some 3, .cuda⟩]
      [.int 2, .int 2, .int 1, .int 3],
    .mark [⟨"C", some 2, .cuda⟩], .load [⟨"C", some 7, .cuda⟩, ⟨"C", some 0, .cuda⟩] [.int 2, .int 2],
    .access ⟨"C", some 7, .cuda⟩]

theorem copies_never_stale_isomers : (∃ last log, sampleBank.reset.calls reusingCalls = .ok (last, log) ∧
      (last.access ⟨"C", some 7, .cuda⟩).2 = (Slot.numbered 3).address ∧
      ∃ h, lastStore (log.flatMap Event.stored) (Slot.numbered 3).address = some h ∧
        h.location.array = "C" ∧ h.location.index = some 7) ∧
    ∃ files files', reactionRateFiles (device false none) 8 isomers [isomerization 0 1] [0] = .ok files ∧
      reactionRateFiles (device false (some sampleBank)) 8 isomers [isomerization 0 1] [0] = .ok files' ∧
      ∀ σ, ∃ τ τ', evaluate files "eval_rxn_rates" σ = some τ ∧ evaluate files' "eval_rxn_rates" σ = some τ' ∧
        SameCells τ τ' := by
  constructor
  · obtain ⟨last, log, hrun, hread⟩ : ∃ last log, sampleBank.reset.calls reusingCalls = .ok (last, log) ∧
        (last.access ⟨"C", some 7, .cuda⟩).2 = (Slot.numbered 3).address := ⟨_, _, rfl, by decide +kernel⟩
    obtain ⟨⟨h, hlast, harray, hindex⟩, -⟩ := copies_never_stale.1 sampleBank last reusingCalls log
      (by decide +kernel) hrun ⟨"C", some 7, .cuda⟩ 3 (by decide) hread
    exact ⟨last, log, hrun, hread, h, hread ▸ hlast, harray, hindex⟩
  · obtain ⟨items, hitems, hruns⟩ := reactionRateItems_run
      (isomerization_simple (by decide) (by decide) : SimpleReaction isomers.length (isomerization 0 1)).arrhenius
      [isomerization 0 1] 0 0
    have hbatch : batchRateItems isomers [isomerization 0 1] [0] ⟨0, 1, 1⟩ = .ok items := by
      have hmembers : Batch.members ⟨0, 1, 1⟩ [isomerization 0 1] = [(isomerization 0 1, 0)] := rfl
      have hlabel : entryAt [(0 : ℤ)] 0 = .ok 0 := rfl
      simp only [batchRateItems, hmembers, mapM_cons, mapM_nil, hlabel, ok_bind, hitems]
      exact congrArg Except.ok (append_nil items)
    obtain ⟨files, hfiles, hbody⟩ : ∃ files,
        reactionRateFiles (device false none) 8 isomers [isomerization 0 1] [0] = .ok files ∧
        linkedBody files "eval_rxn_rates" = some
          ((rateIntro (device false none) false [isomerization 0 1]).map .step ++ items) := by
      simp only [reactionRateFiles, wholeRateFile, length_singleton, hbatch, ok_bind]
      exact ⟨_, rfl, rfl⟩
    have hmatch := copies_never_stale.2.1 false sampleBank 8 isomers [isomerization 0 1] [0]
    rw [hfiles] at hmatch
    generalize hshared : reactionRateFiles (device false (some sampleBank)) 8 isomers [isomerization 0 1] [0] = x
      at hmatch ⊢
    cases hmatch with
    | ok hsame =>
      refine ⟨files, _, hfiles, rfl, fun σ => ?_⟩
      obtain ⟨τ, hτ, -⟩ := hruns (Function.update σ (.cell "logT" none) (Real.log (σ.var "T")))
      have hplain : evaluate files "eval_rxn_rates" σ = some τ := by
        rw [evaluate, hbody]
        refine perform_of_runItems _ ?_
        rw [runItems_append, runItems_steps, rateIntro_run, Option.bind_some, hτ]
      obtain ⟨τ', hτ', hcells⟩ := exists_of_rel (hsame "eval_rxn_rates" σ σ (.refl σ)) hplain
      exact ⟨τ, τ', hplain, hτ', hcells⟩

end

end Kinetics.Emit
