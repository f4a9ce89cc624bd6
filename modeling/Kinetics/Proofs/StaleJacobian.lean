import Kinetics.Proofs.FilesExist
import Kinetics.Proofs.MainFunction
import Kinetics.Proofs.MatrixUpdates
import Kinetics.Proofs.RunningCode
/-!
# The Jacobian in a used buffer

The main function of a Jacobian that is not split, in C. Every entry of the matrix that is
updated is assigned first, with one exception: if the first species neither takes part in a
change nor is produced, the statement that would assign the temperature row is left out, and the
next species subtracts from whatever the row holds. A second evaluation into the same matrix then
adds the row to itself once more (`first_updates`).
-/

open List

namespace Kinetics.Jacobian

open Code Emit Rate

variable {t : Target} {species : List (Species Exact)} {reactions : List (Reaction ℕ Exact)}

/-! ## Parts of the function -/

section Parts

lemma mainMiddle_tracks (ht : t.language = .c) (sp : List (Species Exact)) (W : Place → Prop) :
    Yields (fun steps => Tracks W (fun p => W p ∨ p = .cell "jac" (some 0)) (steps.map .step))
      (mainMiddle t false sp) := by
  intro steps hs
  obtain ⟨front, back, rfl, hf⟩ := mainMiddle_parts ht sp steps hs
  have hst : Tracks W (fun p => W p ∨ p = .cell "jac" (some 0))
      [Item.step (.set (.cell "jac" 0) 0.0 : Step Exact)] := by
    have hm : Makes (fun _ => 0) (.set (.cell "jac" 0) 0.0) _ :=
      makes_assign rfl (apart_cell (by simp [workNames]) _) (by simp) 2 .set
    refine tracks_makes (.step hm .nil) (forall_mem_singleton.2 fun _ => .inl rfl) (fun p _ => ?_) fun p hp => .inl hp
    simp [eq_comm]
  rw [forall_mem_append] at hf
  simpa using ((tracks_free_steps fun s hs => (hf.1 s hs).free (calmGrammar_spares _)).append hst).append
    (tracks_free_steps fun s hs => (hf.2 s hs).free (calmGrammar_spares _))

lemma mainMiddle_runs (ht : t.language = .c) (sp : List (Species Exact)) :
    Yields (fun steps => Runs (steps.map .step)) (mainMiddle t false sp) := by
  intro steps hs
  obtain ⟨front, back, rfl, hf⟩ := mainMiddle_parts ht sp steps hs
  rw [forall_mem_append] at hf
  have hm : Runs ([Step.set (.cell "jac" 0) 0.0].map .step) := runs_of_step_fits (G := wholeGrammar) id id (by simp)
  simpa using ((runs_of_step_fits id id hf.1).append hm).append (runs_of_step_fits id id hf.2)

end Parts

/-! ## The last statement -/

variable {p : Place}

section Energy

lemma mem_reads_sumOf (gap : Gap) (terms : List (Expr Exact)) (p : Place) :
    p ∈ (sumOf gap terms).reads ↔ ∃ e ∈ terms, p ∈ e.reads := by
  have hf : ∀ (es : List (Expr Exact)) (e : Expr Exact), p ∈ (es.foldl (.binary .plus gap) e).reads ↔
      p ∈ e.reads ∨ ∃ d ∈ es, p ∈ d.reads := by
    intro es
    induction es with
    | nil => simp
    | cons d es ih =>
      intro e
      rw [foldl_cons, ih, exists_mem_cons_iff, ← or_assoc]
      refine or_congr_left ?_
      simp only [Expr.reads, Expr.cells, map_append, mem_append]
  cases terms with
  | nil => simp [sumOf, Expr.reads, Expr.cells]
  | cons e es =>
    rw [exists_mem_cons_iff]
    exact hf es e

/-- The share of a species in the first entry reads its entry in the temperature column. -/
lemma mem_reads_energyTerm {n s : ℕ} {weight : Exact} {lastTouched : Bool} (hp : p.inMatrix = true) :
    p ∈ (energyTerm n s weight lastTouched).reads ↔ s + 1 < n ∧ p = .cell "jac" (some (s + 1 : ℕ)) := by
  have hs : ∀ {a : Expr Exact}, a.Fits (calmGrammar False) → p ∉ a.reads := fun ha hm => by
    rw [ha.free (calmGrammar_spares _) p hm] at hp
    cases hp
  have ht : (.cell "spec_rates" s * .sci 8 weight
      * .group (-.var "working_temp" * .cell "h" s / .var "cp_avg" + .cell "cp" s) : Expr Exact).Fits
        (calmGrammar False) := by simp
  have hpl : ∀ a b : Expr Exact, (a + b).reads = a.reads ++ b.reads := fun a b => map_append
  unfold energyTerm
  split
  · next hlt =>
    have he : (.firstColumn "jac" (s + 1 : ℕ) * .cell "h" s * .var "rho" : Expr Exact).reads =
        [.cell "jac" (some (s + 1 : ℕ)), .cell "h" (some s), .cell "rho" none] := rfl
    rw [hpl, mem_append, he]
    have hr : p ∉ [Place.cell "h" (some s), Place.cell "rho" none] := by
      rintro hm
      simp only [mem_cons, not_mem_nil, or_false] at hm
      obtain rfl | rfl := hm <;> cases hp
    simp [hs ht, hr, hlt]
  · next hge =>
    have hl : (.var "J_nplusone" * .cell "h" s * .var "rho" : Expr Exact).Fits (calmGrammar False) := by
      simp
    split
    · simp [hge, hs (fits_add.2 ⟨.inl ht, hl⟩)]
    · simp [hge, hs ht]

/-- The last statement assigns the first entry and reads the temperature column. -/
lemma energyCompletion_eq (sp : List (Species Exact)) (lastTouched : Bool) :
    ∃ value : Expr Exact, energyCompletion sp lastTouched =
        [.remark "Complete dT wrt T calculations", .set (.firstColumn "jac" 0) value] ∧ ∀ p, p.inMatrix = true →
        (p ∈ value.reads ↔ ∃ k, k + 1 < sp.length ∧ p = .cell "jac" (some (k + 1 : ℕ))) := by
  refine ⟨_, rfl, fun p hp => ?_⟩
  have hq : ∀ a b : Expr Exact, (a / b).reads = a.reads ++ b.reads := fun a b => map_append
  have hd : p ∉ (Expr.group (.var "rho" * .var "cp_avg") : Expr Exact).reads := by
    intro hmm
    have hf : (Expr.group (.var "rho" * .var "cp_avg") : Expr Exact).Fits (calmGrammar False) := by
      simp
    rw [hf.free (calmGrammar_spares _) p hmm] at hp
    cases hp
  rw [hq, mem_append, or_iff_left hd]
  refine (mem_reads_sumOf _ _ p).trans ?_
  constructor
  · rintro ⟨e, he, hmm⟩
    obtain ⟨x, -, rfl⟩ := mem_map.1 he
    exact ⟨x.2, (mem_reads_energyTerm hp).1 hmm⟩
  · rintro ⟨k, hk, hpl⟩
    have hlt : k < sp.length := by omega
    have hm : (sp[k], k) ∈ sp.zipIdx := mem_zipIdx_iff_getElem?.2 (List.getElem?_eq_getElem hlt)
    exact ⟨_, mem_map_of_mem hm, (mem_reads_energyTerm hp).2 ⟨hk, hpl⟩⟩

end Energy

/-! ## The whole function -/

section Main
variable {limits : Limits} {produced : List Bool} {files : List (SourceFile Exact)} {entries : List Bool}
variable {steps : List (Step Exact)}

/-- The parts of a Jacobian that is not split. The loops stand in the main function. -/
lemma jacobianFiles_single [Written Exact]
    (h : jacobianFiles t limits species reactions produced = .ok (files, entries))
    (hs : ¬limits.reactionBatch < reactions.length) :
    ∃ start declarations equilibrium state loop middle finish rest,
      mainStart t species reactions = .ok start ∧ mainDeclarations t false species reactions = .ok declarations ∧
      equilibriumSlopeItems t.language species reactions = .ok equilibrium ∧
      reactionRun ⟨species, reactions, false⟩ { bank := t.freshBank } reactions.zipIdx = .ok (state, loop) ∧
      mainMiddle t false species = .ok middle ∧
      finishRun species produced state.progress species.zipIdx = .ok finish ∧
      mainRest species state.progress = .ok rest ∧
      HasMain t files ((start ++ declarations).map .step ++ equilibrium ++ loop ++ (middle ++ finish).map .step ++ rest)
        mainClosing := by
  obtain ⟨hb, hr, hsp⟩ := jacobianFiles_inhabited h
  simp only [jacobianFiles, hb, hr, hsp, hs, decide_false, Bool.not_true, Bool.false_eq_true, if_false] at h
  obtain ⟨he, hhd, h⟩ := bind_eq_ok.1 h
  obtain ⟨start, hst, h⟩ := bind_eq_ok.1 h
  obtain ⟨declarations, hd, h⟩ := bind_eq_ok.1 h
  obtain ⟨equilibrium, heq, h⟩ := bind_eq_ok.1 h
  obtain ⟨⟨state, loop⟩, hl, h⟩ := bind_eq_ok.1 h
  simp only [pure_ok, ok_bind] at h
  obtain ⟨middle, hm, h⟩ := bind_eq_ok.1 h
  obtain ⟨rest, hrs, h⟩ := bind_eq_ok.1 h
  obtain ⟨finish, hf, h⟩ := bind_eq_ok.1 h
  obtain ⟨suffix, hsf, h⟩ := bind_eq_ok.1 h
  obtain ⟨hed, hh, h⟩ := bind_eq_ok.1 h
  refine ⟨start, declarations, equilibrium, state, loop, middle, finish, rest, hst, hd, heq,
    hl, hm, hf, hrs, mainSource t suffix hed _ mainClosing, _, hed, ?_, mainSignature_name hh, rfl⟩
  have hfl : files = [he, mainSource t suffix hed ((start ++ declarations).map .step ++ equilibrium ++ loop ++
      (middle ++ finish).map .step ++ rest) mainClosing] ++ [] := (congrArg Prod.fst (Except.ok.inj h)).symm
  rw [hfl]
  exact fileAt_main (forall_mem_nil _)

lemma exists_mem_zipIdx_fst {β : Type} {xs : List β} {P : β → Prop} : (∃ x ∈ xs.zipIdx, P x.1) ↔ ∃ x ∈ xs, P x := by
  constructor
  · rintro ⟨x, hx, hP⟩
    exact ⟨x.1, fst_mem_of_mem_zipIdx hx, hP⟩
  · rintro ⟨x, hx, hP⟩
    obtain ⟨i, hi, rfl⟩ := getElem_of_mem hx
    exact ⟨(xs[i], i), mem_zipIdx_iff_getElem?.2 (List.getElem?_eq_getElem hi), hP⟩

/-- The entry is assigned before the finishing statements. -/
def Assigned (n : ℕ) (progress : Progress) (p : Place) : Prop := progress.Covers n p ∨ p = .cell "jac" (some 0)

/-- The main function as a user of the matrix: the reaction loop and what stands around it, the finishing
statements, and a last part that ends with an assignment to the first entry. -/
structure MatrixParts (species : List (Species Exact)) (produced : List Bool) (progress : Progress)
    (front : List (Item Exact)) (finish : List (Step Exact)) (rest : List (Item Exact)) (value : Expr Exact) :
    Prop where
  tracks : Tracks (Progress.Covers species.length {}) (Assigned species.length progress) front
  finishes : finishRun species produced progress species.zipIdx = .ok finish
  free : ∀ i ∈ rest, i.Free
  reads : ∀ p, p.inMatrix = true → (p ∈ value.reads ↔ ∃ k, k + 1 < species.length ∧ p = .cell "jac" (some (k + 1 : ℕ)))

def matrixBody (front : List (Item Exact)) (finish : List (Step Exact)) (rest : List (Item Exact))
    (value : Expr Exact) : List (Item Exact) :=
  front ++ (finish.map .step ++ (rest ++ [.step (.set (.firstColumn "jac" 0) value)]))

lemma jacobianFiles_parts [Written Exact] (ht : t.language = .c) (hn : 1 < species.length)
    (h : jacobianFiles t limits species reactions produced = .ok (files, entries))
    (hsn : ¬limits.reactionBatch < reactions.length) :
    ∃ progress front finish rest value, HasMain t files (matrixBody front finish rest value) mainClosing ∧
      MatrixParts species produced progress front finish rest value ∧
      ((∀ σ, (loopShares ⟨species, reactions, false⟩ none σ reactions.zipIdx).isSome = true) →
        Runs (matrixBody front finish rest value)) ∧
      ∀ k, k ∈ progress.composition ↔ ∃ r ∈ reactions, Arithmetic.isZero (r.change k) = false := by
  obtain ⟨start, declarations, equilibrium, state, loop, middle, finish, rest, hst, hdc, heq,
    hl, hm, hf, hr, hmn⟩ := jacobianFiles_single h hsn
  rw [freshBank_eq_none ht] at hl
  have hne : species ≠ [] := ne_nil_of_length_pos (Nat.zero_lt_of_lt hn)
  have hd : ∀ s ∈ start ++ declarations, s.Fits (calmGrammar True) := forall_mem_append.2
    ⟨mainStart_fits ht species reactions start hst, mainDeclarations_fits ht false species reactions declarations hdc⟩
  have hsl := equilibriumSlopeItems_fits ht species reactions equilibrium heq
  have hfr := (((tracks_free_steps fun s hs => (hd s hs).free (calmGrammar_spares _)).append
    (tracks_free fun i hi => (hsl i hi).free (calmGrammar_spares _))).append (reactionRun_tracks rfl rfl hn hl).1).append
      (mainMiddle_tracks ht species (state.progress.Covers species.length) middle hm)
  obtain ⟨het, hh, hls⟩ := bind_eq_ok.1 hr
  cases hls
  have hh := heatCapacityItems_fits species het hh
  have he := energyCompletion_fits hne (state.progress.temperature.contains (species.length - 1))
  obtain ⟨value, hv, hrd⟩ := energyCompletion_eq species (state.progress.temperature.contains (species.length - 1))
  rw [hv, forall_mem_cons] at he
  have hq : ∀ i ∈ het ++ [.step .blank, .step (.remark "Complete dT wrt T calculations")],
      (i : Item Exact).Fits (calmGrammar False) := forall_mem_append.2 ⟨hh, by simp⟩
  refine ⟨state.progress, _, finish, _, value, ?_, ⟨hfr, hf, fun i hi =>
    (hq i hi).free (calmGrammar_spares _), hrd⟩, fun hsh => ?_, fun k => ?_⟩
  · rw [hv] at hmn
    simpa [matrixBody] using hmn
  · have hloopRuns : Runs loop := runs_of_runItems fun σ => (isSome_eq_of_rel (loop_rel hl σ)).trans (hsh σ)
    have hmiddleRuns := mainMiddle_runs ht species middle hm
    have hfinishRuns := runs_of_step_fits id id
      (finishRun_fits species produced state.progress species.zipIdx finish hf)
    exact ((((runs_of_step_fits id id hd).append (runs_of_fits id id id hsl)).append hloopRuns).append
      hmiddleRuns).append (hfinishRuns.append ((runs_of_fits id id id hq).append (runs_of_step_fits id id he.2)))
  · rw [(reactionRun_tracks rfl rfl hn hl).2 k]
    exact (or_iff_right not_mem_nil).trans
      (exists_mem_zipIdx_fst (P := fun r : Reaction ℕ Exact => Arithmetic.isZero (r.change k) = false))

section Body
variable {progress : Progress} {front rest : List (Item Exact)} {finish : List (Step Exact)} {value : Expr Exact}

lemma firstUpdate_matrixBody (p : Place) :
    firstUpdate p (matrixBody front finish rest value) = (firstUpdate p front).or ((firstUpdate p (finish.map .step)).or
        ((firstUpdate p rest).or (firstUpdate p [.step (.set (.firstColumn "jac" 0) value)]))) := by
  rw [matrixBody, firstUpdate_append, firstUpdate_append, firstUpdate_append]

lemma not_covers_empty (n : ℕ) (p : Place) : ¬Progress.Covers n {} p := by
  rintro (⟨k, hk, -⟩ | ⟨k, hk, -⟩) <;> cases hk

/-- No entry of the temperature row is assigned before the finishing statements. -/
lemma not_assigned_energyPlace (progress : Progress) {n j : ℕ} (hj : j + 1 < n) : ¬Assigned n progress (energyPlace n j) := by
  rintro ((⟨k, -, hk, hp⟩ | ⟨k, -, -, j', -, hp⟩) | hp)
  · exact energyPlace_ne_temperaturePlace k j hk hp
  · exact energyPlace_ne_compositionPlace k j j' hp
  · simp only [energyPlace, Place.cell.injEq, Option.some.injEq, true_and] at hp
    have hps : 0 < n * (j + 1) := Nat.mul_pos (by omega) (by omega)
    omega

namespace MatrixParts

abbrev body (_ : MatrixParts species produced progress front finish rest value) : List (Item Exact) :=
  matrixBody front finish rest value

variable (h : MatrixParts species produced progress front finish rest value)
include h

lemma first_of_assigned (hp : p.inMatrix = true) (hs : Assigned species.length progress p) :
    firstUpdate p front = some .set :=
  h.tracks.assigned p hp (not_covers_empty _ p) hs

/-- After the finishing statements only the first entry is updated. -/
lemma first_ends (hp : p.inMatrix = true) (hs : ¬Assigned species.length progress p) :
    (firstUpdate p rest).or (firstUpdate p [.step (.set (.firstColumn "jac" 0) value)]) = none := by
  have hne : p ≠ .cell "jac" (some 0) := fun heq => hs (.inr heq)
  rw [firstUpdate_free h.free hp, Option.none_or, firstUpdate_eq_none]
  exact forall_mem_singleton.2 hne.symm

/-- What the finishing statements update beside the temperature row is assigned already. -/
lemma assigned_of_finish {f : Form} (hu : (p, f) ∈ updates (finish.map .step))
    (he : ∀ j, j + 1 < species.length → p ≠ energyPlace species.length j) :
    Assigned species.length progress p := by
  rw [updates_steps, (finishRun_updates h.finishes).1] at hu
  obtain ⟨x, hx, j, hj, ⟨hw, heq⟩ | ⟨-, heq⟩⟩ := hu
  · have hk : x.2 < species.length := by simpa using snd_lt_of_mem_zipIdx hx
    exact .inl (.inr ⟨x.2, hw, hk, j, hj, congrArg Prod.fst heq⟩)
  · exact absurd (congrArg Prod.fst heq) (he j hj)

/-- Entries outside of the temperature row are assigned first, or never updated. -/
lemma first_other (hp : p.inMatrix = true) (he : ∀ j, j + 1 < species.length → p ≠ energyPlace species.length j) :
    (Assigned species.length progress p ∧ firstUpdate p h.body = some .set) ∨
      ¬Assigned species.length progress p ∧ firstUpdate p h.body = none := by
  rw [body, firstUpdate_matrixBody]
  by_cases hs : Assigned species.length progress p
  · refine .inl ⟨hs, ?_⟩
    rw [h.first_of_assigned hp hs, Option.some_or]
  · refine .inr ⟨hs, ?_⟩
    have hf : firstUpdate p (finish.map .step) = none := by
      rw [firstUpdate_eq_none]
      rintro ⟨q, f⟩ hu rfl
      exact hs (h.assigned_of_finish hu he)
    rw [h.tracks.untouched p hp hs, hf, h.first_ends hp hs]
    rfl

lemma first_composition {k j : ℕ} (hk : k < species.length) (hw : k ∈ progress.composition)
    (hj : j + 1 < species.length) :
    firstUpdate (compositionPlace species.length k j) h.body = some .set := by
  have hm : (compositionPlace species.length k j).inMatrix = true := by
    unfold compositionPlace
    split <;> rfl
  rw [body, firstUpdate_matrixBody, h.first_of_assigned hm (.inl (.inr ⟨k, hw, hk, j, hj, rfl⟩)), Option.some_or]

lemma first_energy {j : ℕ} (hj : j + 1 < species.length) :
    firstUpdate (energyPlace species.length j) h.body =
      firstUpdate (energyPlace species.length j) (finish.map .step) := by
  have hs := not_assigned_energyPlace progress hj
  rw [body, firstUpdate_matrixBody, h.tracks.untouched _ rfl hs, h.first_ends rfl hs, Option.none_or, Option.or_none]

lemma plain : ∀ i ∈ h.body, i.Plain := by
  have hf : ∀ s ∈ finish, (Item.step s).Plain := by
    intro s hs u hu _
    refine ⟨⟨s, rfl⟩, ?_⟩
    obtain ⟨x, -, j, -, ⟨-, rfl⟩ | ⟨-, rfl⟩⟩ := ((finishRun_updates h.finishes).1 u).1 (mem_flatMap.2 ⟨s, hs, hu⟩)
    · exact .inr (.inl rfl)
    · dsimp only
      split
      · exact .inl rfl
      · exact .inr (.inr rfl)
  rw [body, matrixBody, forall_mem_append, forall_mem_append, forall_mem_append, forall_mem_map, forall_mem_singleton]
  refine ⟨h.tracks.plain, hf, fun i hi => plain_of_free (h.free i hi), ?_⟩
  exact forall_mem_singleton.2 fun _ => ⟨⟨_, rfl⟩, .inl rfl⟩

/-- Only the last statement reads entries that are not assigned yet: those of the temperature column that are
never updated. -/
lemma mem_unsetReads (p : Place) :
    p ∈ unsetReads [] h.body ↔ ∃ k, k + 1 < species.length ∧
      p = .cell "jac" (some (k + 1 : ℕ)) ∧ firstUpdate p h.body = none := by
  have hf : unsetReads [] front = [] := unsetReads_eq_nil fun i hi q hq hm => by
    rw [h.tracks.unread i hi q hq] at hm
    cases hm
  have hfn : unsetReads (updates front) (finish.map .step) = [] := by
    refine unsetReads_eq_nil (forall_mem_map.2 fun s hs q hq hm => ?_)
    obtain ⟨x, hx, j, hj, hw, rfl⟩ := (finishRun_updates h.finishes).2 q (mem_flatMap.2 ⟨s, hs, hq⟩) hm
    have hk : x.2 < species.length := by simpa using snd_lt_of_mem_zipIdx hx
    exact mem_of_firstUpdate (h.first_of_assigned hm (.inl (.inr ⟨x.2, hw, hk, j, hj, rfl⟩)))
  have hr : ∀ done, unsetReads done rest = [] := fun done => unsetReads_eq_nil fun i hi q hq hm => by
    rw [(h.free i hi).1 q hq] at hm
    cases hm
  rw [body, matrixBody, unsetReads_append, unsetReads_append, unsetReads_append, nil_append, hf, hfn, hr,
    nil_append, nil_append, nil_append, unsetReads, unsetReads, append_nil, mem_filter,
    Bool.and_eq_true, Bool.not_eq_true', decide_eq_false_iff_not]
  -- an entry of the temperature column is assigned in front or nowhere
  have hc : ∀ k, k + 1 < species.length → ∀ j, j + 1 < species.length →
      Place.cell "jac" (some (k + 1 : ℕ)) ≠ energyPlace species.length j := by
    intro k hk j _ heq
    refine energyPlace_ne_temperaturePlace k j hk ?_
    rw [temperaturePlace, if_neg (by omega), ← heq]
  constructor
  · rintro ⟨hrd, hm, hu⟩
    obtain ⟨k, hk, rfl⟩ := (h.reads p hm).1 hrd
    refine ⟨k, hk, rfl, ?_⟩
    obtain ⟨hst, -⟩ | ⟨-, hn⟩ := h.first_other hm (hc k hk)
    · have hfs := mem_of_firstUpdate (h.first_of_assigned hm hst)
      exact absurd (mem_append_left _ (mem_append_left _ hfs)) hu
    · exact hn
  · rintro ⟨k, hk, rfl, hn⟩
    refine ⟨(h.reads _ rfl).2 ⟨k, hk, rfl⟩, rfl, fun hst => ?_⟩
    refine firstUpdate_eq_none.1 hn (.cell "jac" (some (k + 1 : ℕ)), .set) ?_ rfl
    rw [updates_append, updates_append, updates_append, ← append_assoc, ← append_assoc]
    exact mem_append_left _ hst

/-- An entry is assigned first, or it begins with a subtraction and is never assigned. -/
lemma first_form {form : Form} (hp : p.inMatrix = true)
    (hf : firstUpdate p h.body = some form) :
    form = .set ∨ form = .subtract ∧ (p, .set) ∉ updates h.body := by
  by_cases he : ∀ j, j + 1 < species.length → p ≠ energyPlace species.length j
  · obtain ⟨-, ho⟩ | ⟨-, ho⟩ := h.first_other hp he
    · rw [ho] at hf
      exact .inl (Option.some.inj hf).symm
    · rw [ho] at hf
      cases hf
  · push Not at he
    obtain ⟨j, hj, rfl⟩ := he
    rw [h.first_energy hj] at hf
    have hu := mem_of_firstUpdate hf
    rw [updates_steps, (finishRun_updates h.finishes).1] at hu
    obtain ⟨x, -, j', -, hfn⟩ := hu
    have hform := hfn.energy.2
    split at hform
    · exact .inl hform
    · refine .inr ⟨hform, ?_⟩
      have hs := not_assigned_energyPlace progress hj
      have hen := Option.or_eq_none_iff.1 (h.first_ends hp hs)
      have hz : ¬Kept produced progress 0 := fun hz => by
        rw [(finishRun_first h.finishes hj).1 hz, hform] at hf
        cases hf
      rw [body, matrixBody, updates_append, updates_append, updates_append, mem_append, mem_append, mem_append]
      rintro (hu | hu | hu | hu)
      · exact firstUpdate_eq_none.1 (h.tracks.untouched _ hp hs) _ hu rfl
      · rw [updates_steps, (finishRun_updates h.finishes).1] at hu
        obtain ⟨x, -, j', -, hfn⟩ := hu
        obtain ⟨hk, hfr⟩ := hfn.energy
        split at hfr
        · next hx => exact hz (hx ▸ hk)
        · cases hfr
      · exact firstUpdate_eq_none.1 hen.1 _ hu rfl
      · exact firstUpdate_eq_none.1 hen.2 _ hu rfl

/-- A second run into the same matrix changes what begins with a subtraction, and nothing else. -/
lemma perform_again {callees : Callees} (hc : callees.Overlook) {σ τ : Memory}
    (hr : perform callees σ h.body = some τ) :
    ∃ υ, perform callees (reused σ τ) h.body = some υ ∧
      ∀ p, υ p = τ p + if p.inMatrix = true ∧ firstUpdate p h.body = some .subtract
        then τ p - σ p else 0 := by
  have hu : ∀ p ∈ unsetReads [] h.body,
      firstUpdate p h.body = none := by
    intro p hp
    obtain ⟨k, -, -, hn⟩ := (h.mem_unsetReads p).1 hp
    exact hn
  obtain ⟨υ, ha, hυ⟩ := perform_reused hc h.plain hu hr
  refine ⟨υ, ha, fun p => ?_⟩
  rw [hυ p, add_right_inj]
  cases hp : p.inMatrix with
  | false => simp
  | true =>
    simp only [true_and]
    -- an entry that is never assigned is either never updated or begins with a subtraction
    cases hf : firstUpdate p h.body with
    | none => simp [perform_frame hc hr hp hf]
    | some form =>
      obtain rfl | ⟨rfl, hu⟩ := h.first_form hp hf
      · rw [if_neg (not_not.2 (mem_of_firstUpdate hf)), if_neg (by simp)]
      · rw [if_pos hu, if_pos rfl]

end MatrixParts

end Body

/-- The Jacobian in C, not split, in whatever the matrix held before. An entry outside of the temperature row is
assigned first or never updated, and the entries of a species that reactions change are assigned. The temperature
row is assigned first if the first species has a share in it. If it has none but another species has, the first
update subtracts, and a second run into the same matrix changes the row once more by what the first run has changed
it. Everything else comes out as before, although the last statement reads the entries of the temperature column
that are never updated. If the reaction loop runs, so does the whole function. -/
theorem first_updates [Written Exact] (ht : t.language = .c) (hn : 1 < species.length)
    (h : jacobianFiles t limits species reactions produced = .ok (files, entries))
    (hsingle : ¬limits.reactionBatch < reactions.length) :
    let share := fun k => (∃ r ∈ reactions, Arithmetic.isZero (r.change k) = false) ∨ produced[k]? = some true
    ∃ body, HasMain t files body mainClosing ∧
      (∀ p, p.inMatrix = true → (∀ j, j + 1 < species.length → p ≠ energyPlace species.length j) →
        firstUpdate p body = none ∨ firstUpdate p body = some .set) ∧
      (∀ k < species.length, (∃ r ∈ reactions, Arithmetic.isZero (r.change k) = false) →
        ∀ j, j + 1 < species.length → firstUpdate (compositionPlace species.length k j) body = some .set) ∧
      (∀ j, j + 1 < species.length → (share 0 → firstUpdate (energyPlace species.length j) body = some .set) ∧
        (¬share 0 → (∃ k < species.length, share k) →
          firstUpdate (energyPlace species.length j) body = some .subtract) ∧
        ((∀ k < species.length, ¬share k) → firstUpdate (energyPlace species.length j) body = none)) ∧
      (∀ p, p ∈ unsetReads [] body ↔
        ∃ k, k + 1 < species.length ∧ p = .cell "jac" (some (k + 1 : ℕ)) ∧ firstUpdate p body = none) ∧
      ((∀ σ, (loopShares ⟨species, reactions, false⟩ none σ reactions.zipIdx).isSome = true) → Runs body) ∧
      ∀ callees : Callees, callees.Overlook → ∀ σ τ, perform callees σ body = some τ →
        ∃ υ, perform callees (reused σ τ) body = some υ ∧
          ∀ p, υ p = τ p + if p.inMatrix = true ∧ firstUpdate p body = some .subtract then τ p - σ p else 0 := by
  intro share
  obtain ⟨progress, front, finish, rest, value, hmain, hparts, hruns, hcomposition⟩ :=
    jacobianFiles_parts ht hn h hsingle
  have hshare : ∀ k, Kept produced progress k ↔ share k := fun k => or_congr_left (hcomposition k)
  refine ⟨_, hmain, fun p hp henergy => ?_, fun k hk hchange j hj => ?_, fun j hj => ?_, hparts.mem_unsetReads, hruns,
    fun callees hcallees σ τ hrun => hparts.perform_again hcallees hrun⟩
  · exact (hparts.first_other hp henergy).symm.imp And.right And.right
  · exact hparts.first_composition hk ((hcomposition k).2 hchange) hj
  · rw [hparts.first_energy hj]
    simpa only [hshare] using finishRun_first hparts.finishes hj
end Main

/-! ## Isomers in nitrogen -/

section Diluted

noncomputable def dilutedIsomers : List (Species Exact) := { Species.named "N2" with weight := .measure 28.0 } :: isomers

lemma dilutedIsomers_mechanism : SimpleMechanism dilutedIsomers [isomerization 1 2] where
  several := by decide
  weights := forall_mem_cons.2 ⟨by norm_num, isomers_weights⟩
  reactions := forall_mem_singleton.2 (isomerization_simple (by decide) (by decide))

lemma dilutedIsomers_shares (σ : Memory) :
    (loopShares ⟨dilutedIsomers, [isomerization 1 2], false⟩ none σ [isomerization 1 2].zipIdx).isSome = true := by
  obtain ⟨derivative, ρ, hs, -⟩ := isomerization_share (e := ⟨dilutedIsomers, [isomerization 1 2], false⟩)
    (a := 1) (b := 2) (isomerization_simple (by decide) (by decide)) dilutedIsomers_mechanism.weights none 0 σ
  change (loopShares _ none σ [(isomerization 1 2, 0)]).isSome = true
  simp only [loopShares, hs, Option.bind_eq_bind, Option.bind_some]
  rfl

/-- Nitrogen has no share in the temperature row, so the row is not assigned. The second run doubles it, if it was
zero at first. -/
theorem diluted_first_updates : ∃ files entries body,
    jacobianFiles { language := .c } ⟨1, 1, 1, 1⟩ dilutedIsomers [isomerization 1 2] [false, true, true] =
      .ok (files, entries) ∧
    HasMain { language := .c } files body mainClosing ∧
    firstUpdate (.cell "jac" (some 3)) body = some .subtract ∧
    firstUpdate (.cell "jac" (some 6)) body = some .subtract ∧
    ∀ callees : Callees, callees.Overlook → callees.Total → ∀ σ, σ (.cell "jac" (some 3)) = 0 →
      ∃ τ υ, perform callees σ body = some τ ∧ perform callees (reused σ τ) body = some υ ∧
        υ (.cell "jac" (some 3)) = 2 * τ (.cell "jac" (some 3)) := by
  obtain ⟨files, entries, h⟩ := jacobianFiles_ok (t := { language := .c }) rfl dilutedIsomers_mechanism
    (cons_ne_nil _ _) (show [false, true, true].length = dilutedIsomers.length from rfl) ⟨1, 1, 1, 1⟩
  obtain ⟨body, hmain, -, -, hrow, -, hruns, hagain⟩ := first_updates rfl (by decide) h (by decide)
  have hinert : (isomerization 1 2).change 0 = Arithmetic.zero := by
    refine Reaction.change_of_not_mem ?_
    simp [mem_participants, isomerization, Reaction.elementary]
  have hnone : ¬((∃ r ∈ [isomerization 1 2], Arithmetic.isZero (r.change 0) = false) ∨
      [false, true, true][0]? = some true) := by
    simp [hinert]
  have hsome : ∃ k < dilutedIsomers.length, (∃ r ∈ [isomerization 1 2], Arithmetic.isZero (r.change k) = false) ∨
      [false, true, true][k]? = some true := ⟨1, by decide, .inr rfl⟩
  have hfirst : firstUpdate (.cell "jac" (some 3)) body = some .subtract := (hrow 0 (by decide)).2.1 hnone hsome
  refine ⟨files, entries, body, h, hmain, hfirst, (hrow 1 (by decide)).2.1 hnone hsome,
    fun callees hcallees htotal σ hzero => ?_⟩
  obtain ⟨τ, hτ⟩ := hruns dilutedIsomers_shares callees htotal σ
  obtain ⟨υ, hυ, hvalues⟩ := hagain callees hcallees σ τ hτ
  refine ⟨τ, υ, hτ, hυ, ?_⟩
  rw [hvalues, if_pos ⟨rfl, hfirst⟩, hzero]
  ring

end Diluted

end Kinetics.Jacobian
