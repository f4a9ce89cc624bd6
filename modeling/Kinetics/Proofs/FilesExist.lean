import Kinetics.Proofs.MatrixColumns
import Kinetics.Proofs.NumberedFunctions
import Kinetics.Proofs.ThermodynamicConsistency
/-!
# All files of a Jacobian exist

For elementary and third-body reactions among species with positive weights every part of the
Jacobian can be written, whatever the lengths of batches and files (`jacobianFiles_ok`).
-/

open List

namespace Kinetics.Jacobian

open Code Emit Rate

variable {t : Target} {sp : List (Species Exact)} {rs : List (Reaction ℕ Exact)}

/-- A list of species with positive weights and simple reactions among them. -/
structure SimpleMechanism (species : List (Species Exact)) (reactions : List (Reaction ℕ Exact)) : Prop where
  several : 1 < species.length
  weights : ∀ s ∈ species, 0 < s.weight.toReal
  reactions : ∀ r ∈ reactions, SimpleReaction species.length r

/-! ## The reaction loop -/

section Reactions

lemma freshBank_eq_none (ht : t.language = .c) : t.freshBank = none := by
  simp [Target.freshBank, Target.onDevice, ht]

lemma changesLast_ok {r : Reaction ℕ Exact} {n : ℕ} (h : SimpleReaction n r) : ∃ b, r.changesLast n = .ok b := by
  unfold Reaction.changesLast
  split
  · exact ⟨_, rfl⟩
  · rw [Reaction.net_eq (Reaction.Side.aligned h.reactants.toSide h.products.toSide)]
    exact ⟨_, rfl⟩

lemma needsOf_ok {n : ℕ} {members : List (Reaction ℕ Exact)} (h : ∀ r ∈ members, SimpleReaction n r)
    (all : List (Reaction ℕ Exact)) (unshared : Bool) : ∃ needs, needsOf n all members unshared = .ok needs := by
  obtain ⟨last, hl⟩ := mapM_ok fun r hr => changesLast_ok (h r hr)
  exact ⟨_, by rw [needsOf, hl]; rfl⟩

lemma reactionFiles_ok (ht : t.language = .c) (number : ℤ) (rates : List String) (needs : Needs)
    (body : List (Item Exact)) : ∃ files, reactionFiles t "jacobs/" number rates needs body batchClosing = .ok files := by
  simp only [reactionFiles, numberedFiles, batchGuard, batchSignature, ht, Language.headerSuffix, Language.noAlias, ok_bind]
  exact ⟨_, rfl⟩

lemma reactionBatches_ok (ht : t.language = .c) (h : SimpleMechanism sp rs) (bs : List Batch)
    {s : LoopState Exact} (hb : s.bank = none) (out : Split Exact) :
    ∃ x, reactionBatches t ⟨sp, rs, true⟩ bs s out = .ok x := by
  induction bs generalizing s out with
  | nil => exact ⟨_, rfl⟩
  | cons b bs ih =>
    have hm : ∀ x ∈ b.members rs, SimpleReaction sp.length x.1 := fun x hx =>
      h.reactions x.1 (fst_mem_of_mem_zipIdx (mem_of_mem_take (mem_of_mem_drop hx)))
    have hd : ∀ r ∈ (rs.take b.declared).drop b.start, SimpleReaction sp.length r :=
      fun r hr => h.reactions r (mem_of_mem_take (mem_of_mem_drop hr))
    obtain ⟨s₁, items, hi, hb₁⟩ := reactionRun_ok (e := ⟨sp, rs, true⟩)
      (s := { s with excess := none }) hb hm h.several h.weights
    refine exists_bind_ok (needsOf_ok hd rs _) fun needs => ?_
    rw [hi, ok_bind]
    exact exists_bind_ok (reactionFiles_ok ht ..) fun files => ih hb₁ _

lemma splitReactions_ok [Written Exact] (ht : t.language = .c) (h : SimpleMechanism sp rs)
    (lines : ℤ) (length : ℕ) : ∃ x, splitReactions t lines ⟨sp, rs, true⟩ length = .ok x := by
  have hb : t.freshBank = none := freshBank_eq_none ht
  induction length using Nat.strong_induction_on with
  | _ length ih =>
    rw [splitReactions]
    refine exists_bind_ok (reactionBatches_ok ht h _ hb {}) fun x => ?_
    dsimp only
    split
    · split
      · exact ⟨_, rfl⟩
      · next hl => exact ih (length / 2) (by omega)
    · exact ⟨_, rfl⟩

end Reactions

/-! ## The loop over species -/

section Species
variable {produced : List Bool}

lemma entryFinish_ok (h : SimpleMechanism sp rs) (hp : produced.length = sp.length)
    {k : ℕ} (hk : k < sp.length) {other : Exact} (ho : 0 < other.toReal) (written : Bool) (j : ℕ)
    (weight : Exact) : ∃ steps, entryFinish sp produced written k j weight other = .ok steps := by
  have hne : sp ≠ [] := ne_nil_of_length_pos (Nat.zero_lt_of_lt hk)
  unfold entryFinish
  cases written with
  | false =>
    refine exists_bind_ok ⟨[], rfl⟩ fun _ =>
      exists_bind_ok ⟨_, entryAt_eq_ok.2 (List.getElem?_eq_getElem (hp ▸ hk))⟩ fun kept => ?_
    cases kept <;> exact ⟨_, rfl⟩
  | true =>
    rw [if_pos rfl, lastEntry_eq_ok.2 (List.getLast?_eq_some_getLast hne), ok_bind, densityTerm,
      Exact.div_ok ho.ne', ok_bind, Exact.div_ok (h.weights _ (getLast_mem hne)).ne']
    exact ⟨_, rfl⟩

lemma finishRun_ok (h : SimpleMechanism sp rs) (hp : produced.length = sp.length)
    (progress : Progress) {members : List (Species Exact × ℕ)} (hm : ∀ x ∈ members, x ∈ sp.zipIdx) :
    ∃ steps, finishRun sp produced progress members = .ok steps := by
  refine exists_bind_ok (mapM_ok fun x hx => exists_bind_ok (mapM_ok fun y hy => ?_) fun _ => ⟨_, rfl⟩) fun _ => ⟨_, rfl⟩
  have hk := snd_lt_of_mem_zipIdx (hm x hx)
  exact entryFinish_ok h hp (by omega) (h.weights y.1 (mem_of_mem_dropLast (fst_mem_of_mem_zipIdx hy))) _ _ _

lemma finishFiles_ok (ht : t.language = .c) (number : ℤ) (lastSpecies : Bool) (body : List (Item Exact))
    (closing : String) : ∃ files, finishFiles t "jacobs/" number lastSpecies body closing = .ok files := by
  simp only [finishFiles, numberedFiles, batchGuard, ht, Language.headerSuffix, ok_bind]
  exact ⟨_, rfl⟩

variable [Written Exact] {e : FinishSetting Exact}

lemma finishBatches_ok (ht : e.target.language = .c) (h : SimpleMechanism e.species rs)
    (hp : e.produced.length = e.species.length) (bs : List Batch) (out : Split Exact) :
    ∃ x, finishBatches e bs out = .ok x := by
  induction bs generalizing out with
  | nil => exact ⟨_, rfl⟩
  | cons b bs ih =>
    refine exists_bind_ok (finishRun_ok h hp e.progress fun x hx => mem_of_mem_take (mem_of_mem_drop hx))
      fun steps => exists_bind_ok (finishFiles_ok ht ..) fun files => ?_
    split
    · exact ⟨_, rfl⟩
    · exact ih _

lemma splitSpecies_ok (ht : e.target.language = .c) (h : SimpleMechanism e.species rs)
    (hp : e.produced.length = e.species.length) (rest : List (Item Exact)) (length : ℕ) (out : Split Exact) :
    ∃ out', splitSpecies e rest length out = .ok out' := by
  induction length using Nat.strong_induction_on generalizing out with
  | _ length ih =>
    rw [splitSpecies]
    split
    · exact exists_bind_ok (finishRun_ok h hp e.progress fun x hx => hx) fun steps =>
        exists_bind_ok (finishFiles_ok ht ..) fun files => ⟨_, rfl⟩
    · next hl =>
      refine exists_bind_ok (finishBatches_ok ht h hp _ out) fun x => ?_
      dsimp only
      split
      · exact ⟨_, rfl⟩
      · exact ih (length / 2) (by omega) x.2

end Species

/-! ## The main function -/

section Main

lemma workArray_ok (ht : t.language = .c) (array memory : String) (n : ℕ) :
    workArray t array n memory = .ok (.declare 2 t.real [array] (some n) none .semicolon : Step Exact) := by
  simp [workArray, Target.onDevice, ht, pure_ok]

lemma mainStart_ok (ht : t.language = .c) (sp : List (Species Exact)) (rs : List (Reaction ℕ Exact)) :
    ∃ steps, mainStart t sp rs = .ok steps := by
  simp only [mainStart, workArray_ok ht, ok_bind, pure_ok]
  split <;> split <;> exact ⟨_, rfl⟩

lemma mainDeclarations_ok (ht : t.language = .c) (h : SimpleMechanism sp rs) (split : Bool) :
    ∃ steps, mainDeclarations t split sp rs = .ok steps := by
  obtain ⟨last, hl⟩ := mapM_ok fun r hr => changesLast_ok (h.reactions r hr)
  have hd : t.onDevice = false := by simp [Target.onDevice, ht]
  simp only [mainDeclarations, loopDeclarations, hl, hd, Bool.false_eq_true, if_false, pure_ok, ok_bind]
  split <;> exact ⟨_, rfl⟩

lemma mainRest_ok (hw : ∀ s ∈ sp, 0 < s.weight.toReal) (hne : sp ≠ []) (progress : Progress) :
    ∃ rest, mainRest sp progress = .ok rest :=
  exists_bind_ok ((heatCapacityItems_run hw hne).imp fun _ h => h.1) fun _ => ⟨_, rfl⟩

lemma jacobianFiles_ok [Written Exact] (ht : t.language = .c) (h : SimpleMechanism sp rs)
    (hrc : rs ≠ []) {produced : List Bool} (hp : produced.length = sp.length)
    (limits : Limits) : ∃ files entries, jacobianFiles t limits sp rs produced = .ok (files, entries) := by
  have hsp : sp ≠ [] := ne_nil_of_length_pos (Nat.zero_lt_of_lt h.several)
  have hmm : ∀ s ∈ equilibriumSpecies rs, s < sp.length := by
    intro s hs
    rw [equilibriumSpecies, mem_eraseDups, mem_flatMap] at hs
    obtain ⟨r, hr, hs⟩ := hs
    exact (h.reactions r (mem_of_mem_filter hr)).members s ((mem_participants r).2 (mem_append.1 hs))
  have hrs := mainRest_ok h.weights hsp
  have hm : ∀ split, ∃ middle, mainMiddle t split sp = .ok middle := by
    simp only [mainMiddle, workArray_ok ht, ok_bind]
    exact fun _ => ⟨_, rfl⟩
  suffices ha : ∃ x, jacobianFiles t limits sp rs produced = .ok x from ha.elim fun x hx => ⟨x.1, x.2, hx⟩
  simp only [jacobianFiles, isEmpty_eq_false_iff.2 hrc, isEmpty_eq_false_iff.2 hsp, mainHeader, mainSignature,
    splitIndex, ht, Language.headerSuffix, Language.noAlias, Bool.false_eq_true, if_false, ok_bind, pure_ok]
  refine exists_bind_ok (mainStart_ok ht sp rs) fun start => exists_bind_ok (mainDeclarations_ok ht h _)
    fun declarations => exists_bind_ok ((equilibriumSlopeItems_run (.inl rfl) hmm).imp fun _ h => h.1) fun _ => ?_
  by_cases hsl : limits.reactionBatch < rs.length
  · simp only [hsl, decide_true, if_true]
    refine exists_bind_ok (splitReactions_ok ht h _ _) fun x => exists_bind_ok (hm _) fun middle =>
      exists_bind_ok (hrs _) fun rest => ?_
    exact exists_bind_ok (splitSpecies_ok ht h hp rest _ _) fun _ => ⟨_, rfl⟩
  · obtain ⟨state, loop, hl, -⟩ := reactionRun_ok (e := ⟨sp, rs, false⟩)
      (s := { bank := t.freshBank }) (freshBank_eq_none ht)
      (fun x hx => h.reactions x.1 (fst_mem_of_mem_zipIdx hx)) h.several h.weights
    simp only [hsl, decide_false, Bool.false_eq_true, if_false]
    exact exists_bind_ok ⟨_, hl⟩ fun x => exists_bind_ok (hm _) fun middle => exists_bind_ok (hrs _) fun rest =>
      exists_bind_ok (finishRun_ok h hp _ fun x hx => hx) fun _ => ⟨_, rfl⟩

end Main

/-- Exact numbers in a text. The lines of a text do not depend on them, so all of them read alike. -/
instance : Written Exact := ⟨fun _ _ => "x"⟩

end Kinetics.Jacobian
