import Kinetics.Proofs.PartLists
import Kinetics.Proofs.RateCode
import Kinetics.Proofs.SplitLoops
/-!
# Rate code that is split into files

On the accelerator a long list of reactions is cut into batches. The main function then calls one
function for each batch, and these functions together hold the code that the main function holds
when nothing is split (`split_rates_same_code`).
-/

open List

namespace Kinetics

variable {ε α β : Type}

lemma Matches.trans {γ : Type} {R : α → β → Prop} {S : β → γ → Prop} {x : Except ε α} {y : Except ε β}
    {z : Except ε γ} (h : Matches R x y) (h' : Matches S y z) : Matches (fun a c => ∃ b, R a b ∧ S b c) x z := by
  cases h with
  | ok h =>
    cases h' with
    | ok h' => exact .ok ⟨_, h, h'⟩
  | error e =>
    cases h'
    exact .error e

lemma map_zipIdx_snd {γ : Type} (f : ℕ → γ) (xs : List α) :
    xs.zipIdx.map (fun p => f p.2) = (List.range xs.length).map f := by
  rw [range_eq_range', ← zipIdx_map_snd 0 xs, map_map]
  rfl

lemma map_zipIdx_fst {γ : Type} (f : α → γ) (xs : List α) : xs.zipIdx.map (fun p => f p.1) = xs.map f := by
  conv_rhs => rw [← zipIdx_map_fst 0 xs, map_map]
  rfl

/-- What a function gives for all members, one after the other. -/
def gather (f : α → Except ε (List β)) (xs : List α) : Except ε (List β) := do return (← xs.mapM f).flatten

lemma gather_append (f : α → Except ε (List β)) (xs ys : List α) :
    gather f (xs ++ ys) = do return (← gather f xs) ++ (← gather f ys) := by
  simp only [gather, mapM_append]
  cases xs.mapM f with
  | error e => rfl
  | ok groups =>
    cases ys.mapM f with
    | error e => rfl
    | ok more => exact congrArg Except.ok flatten_append

/-- What is gathered over consecutive pieces of a list is what is gathered over the whole list. -/
lemma gather_pieces (f : α → Except ε (List β)) (pieces : List (List α)) :
    Matches (fun groups all => groups.flatten = all ∧
        List.Forall₂ (fun piece group => gather f piece = .ok group) pieces groups)
      (pieces.mapM (gather f)) (gather f pieces.flatten) := by
  induction pieces with
  | nil => exact .ok ⟨rfl, .nil⟩
  | cons piece pieces ih =>
    rw [mapM_cons, flatten_cons, gather_append]
    refine matches_bind (P := fun group => gather f piece = .ok group) (fun _ h => h) fun group hg => ?_
    refine ih.bind fun groups all h => .ok ⟨?_, .cons hg h.2⟩
    rw [flatten_cons, h.1]

/-- Results that are completed with the number of the member that they come from. -/
lemma matches_mapM_zipIdx {γ : Type} (f : α → Except ε β) (complete : α → ℕ → β → γ) (xs : List α) (n : ℕ) :
    Matches (fun all ys => all = ((xs.zip ys).zipIdx n).map fun p => complete p.1.1 p.2 p.1.2)
      ((xs.zipIdx n).mapM fun x => do return complete x.1 x.2 (← f x.1)) (xs.mapM f) := by
  induction xs generalizing n with
  | nil => exact .ok rfl
  | cons x xs ih =>
    rw [zipIdx_cons, mapM_cons, mapM_cons]
    cases f x with
    | error e => exact .error e
    | ok y =>
      refine (ih (n + 1)).bind fun all ys h => .ok ?_
      rw [h, zip_cons_cons, zipIdx_cons, map_cons]

namespace Code

/-! ## What a body does -/

/-- Whether an item is neither a declaration nor an empty line. -/
def Item.acts : Item α → Bool
  | .step (.declare _ _ _ _ _ _) | .step .blank => false
  | _ => true

@[simp] lemma acts_declare (indent : ℕ) (type : String) (names : List String) (size : Option ℤ)
    (value : Option (Expr α)) (ending : Ending) :
    (Item.step (.declare indent type names size value ending)).acts = false := rfl

@[simp] lemma acts_blank : (Item.step (.blank : Step α)).acts = false := rfl

def actions (body : List (Item α)) : List (Item α) := body.filter Item.acts

lemma actions_append (xs ys : List (Item α)) : actions (xs ++ ys) = actions xs ++ actions ys := filter_append xs ys

lemma actions_flatten (bodies : List (List (Item α))) : actions bodies.flatten = bodies.flatMap actions := by
  rw [actions, filter_flatten, flatMap_def]
  rfl

def Step.entrySet (array : String) : Step α → Option ℤ
  | .assign _ (.element name (some index)) _ _ => if name = array then some index else none
  | _ => none

def Item.entriesSet (array : String) : Item α → List ℤ
  | .step s => (s.entrySet array).toList
  | .split _ _ below above => (below ++ above).filterMap (Step.entrySet array)
  | .choice _ arms _ => arms.flatMap fun arm => arm.2.filterMap (Step.entrySet array)
  | .load _ | .release _ | .consult _ => []

/-- The entries of an array that a body assigns, in the order of its text. -/
def entriesSet (array : String) (body : List (Item α)) : List ℤ := body.flatMap (Item.entriesSet array)

lemma entriesSet_append (array : String) (xs ys : List (Item α)) :
    entriesSet array (xs ++ ys) = entriesSet array xs ++ entriesSet array ys := flatMap_append

lemma entriesSet_of_idle (array : String) {items : List (Item α)} (h : actions items = []) :
    entriesSet array items = [] := by
  refine flatMap_eq_nil_iff.2 fun i hi => ?_
  have ha := filter_eq_nil_iff.1 h i hi
  unfold Item.acts at ha
  split at ha
  · rfl
  · rfl
  · exact absurd rfl ha

variable {f : SourceFile α}

/-- Among files with paths of their own, each is the one that stays at its path. -/
lemma fileAt_of_nodup {files : List (SourceFile α)} (h : (files.map (·.path)).Nodup)
    (hf : f ∈ files) : fileAt files f.path = some f := by
  have hfn : (fileAt files f.path).isSome := by
    rw [fileAt, List.find?_isSome]
    exact ⟨f, mem_reverse.2 hf, by simp⟩
  obtain ⟨g, hg⟩ := Option.isSome_iff_exists.1 hfn
  have hm : g ∈ files := mem_reverse.1 (mem_of_find?_eq_some hg)
  have hp : g.path = f.path := by simpa using List.find?_some hg
  rw [hg, inj_on_of_nodup_map h hm hf hp]

lemma text_of_parts [Written α] {s : String} (h : f.parts = [.text s]) : f.text = s := by
  rw [SourceFile.text, h]
  simp [FilePart.render, Pen.finish]

variable {array : String}

lemma entrySet_eq_none {s : Step α} (h : s.Fits (readingGrammar array)) : s.entrySet array = none := by
  unfold Step.entrySet
  split
  · exact if_neg h.1
  · rfl

lemma Item.entriesSet_eq (array : String) (i : Item α) :
    i.entriesSet array = i.steps.filterMap (Step.entrySet array) := by
  cases i with
  | step s => cases hs : s.entrySet array <;> simp [Item.entriesSet, Item.steps, hs]
  | choice => exact filterMap_flatMap.symm
  | _ => rfl

lemma entriesSet_eq_nil {items : List (Item α)} (h : ∀ i ∈ items, i.Fits (readingGrammar array)) :
    entriesSet array items = [] := by
  refine flatMap_eq_nil_iff.2 fun i hi => ?_
  rw [Item.entriesSet_eq, filterMap_eq_nil_iff]
  exact fun s hs => entrySet_eq_none ((h i hi).steps s hs)

end Code

namespace Emit

open Code Rate Jacobian Library Std.Do

variable [Arithmetic α] (species : List (Species α)) (reactions : List (Reaction ℕ α)) (labels : List ℤ)

/-! ## The code of one reaction -/

set_option mvcgen.warning false in
/-- The code of a reaction assigns one forward rate, that of the reaction. -/
lemma reactionRateItems_entry (label : ℤ) (r : Reaction ℕ α) (i : ℕ) :
    Yields (fun items => entriesSet "fwd_rxn_rates" items = [(i : ℤ)])
      (reactionRateItems species reactions label r i) := by
  have : (readingGrammar "fwd_rxn_rates").Stateful := readingGrammar_stateful (by decide)
  have hl : entriesSet "fwd_rxn_rates" [.step (.remark ("rxn " ++ toString label)), rateLoads reactions r i] = [] := rfl
  have hc := triple_iff_yields.2 fun items hi =>
    entriesSet_eq_nil (rateConstantItems_fits (G := readingGrammar "fwd_rxn_rates") (r := r) items hi)
  have he := triple_iff_yields.2 fun items hi =>
    entriesSet_eq_nil (equilibriumItems_fits (G := readingGrammar "fwd_rxn_rates") (r := r) species items hi)
  have hf : ⦃⌜True⌝⦄ forwardRate r i ⦃⇓? s => ⌜entriesSet "fwd_rxn_rates" [.step s] = [(i : ℤ)]⌝⦄ :=
    triple_iff_yields.2 fun s hs => (forwardRate_target r i s hs).elim fun _ h => h ▸ rfl
  have hr : ⦃⌜True⌝⦄ reverseRate r (reverseRank reactions i)
      ⦃⇓? s => ⌜entriesSet "fwd_rxn_rates" [.step s, .step .blank] = []⌝⦄ :=
    triple_iff_yields.2 fun s hs => (reverseRate_target r _ s hs).elim fun _ h => h ▸ rfl
  refine triple_iff_yields.1 ?_
  mvcgen [reactionRateItems, hc, he, hf, hr] with (simp_all only [entriesSet_append, append_assoc]; rfl)

def labelledRateItems (x : Reaction ℕ α × ℕ) : Except Fault (List (Item α)) := do
  reactionRateItems species reactions (← entryAt labels x.2) x.1 x.2

lemma batchRateItems_eq (batch : Batch) : batchRateItems species reactions labels batch =
    gather (labelledRateItems species reactions labels) (batch.members reactions) := rfl

/-- The code of a batch assigns the forward rates of its members, in their order. -/
lemma batchRateItems_entries (batch : Batch) :
    Yields (fun items => entriesSet "fwd_rxn_rates" items = (batch.members reactions).map fun x => (x.2 : ℤ))
      (batchRateItems species reactions labels batch) := by
  rw [batchRateItems_eq]
  intro items hi
  obtain ⟨groups, hgr, he⟩ := bind_eq_ok.1 hi
  rw [← pure_eq_ok.1 he]
  have ha := mapM_eq_ok.1 hgr
  clear hi he hgr
  generalize batch.members reactions = members at ha ⊢
  induction ha with
  | nil => rfl
  | @cons x group members groups hg _ ih =>
    obtain ⟨label, -, hg⟩ := bind_eq_ok.1 hg
    rw [flatten_cons, entriesSet_append, ih, reactionRateItems_entry species reactions label x.1 x.2 group hg]
    rfl

lemma batchRateItems_gathered {all : List Batch} {groups : List (List (Item α))}
    (h : List.Forall₂ (fun b group => batchRateItems species reactions labels b = .ok group) all groups) :
    groups.flatMap (entriesSet "fwd_rxn_rates") = ((all.map (·.members reactions)).flatten).map fun x => (x.2 : ℤ) := by
  induction h with
  | nil => rfl
  | cons hg _ ih =>
    rw [flatMap_cons, ih, batchRateItems_entries species reactions labels _ _ hg, map_cons, flatten_cons, map_append]

/-- The code of all batches, one after the other, is the code of all reactions. -/
lemma batchRateItems_pieces (k : ℕ) (hne : reactions ≠ []) : Matches (fun groups items => groups.flatten = items ∧
        List.Forall₂ (fun b group => batchRateItems species reactions labels b = .ok group)
          (batches k reactions.length) groups)
      ((batches k reactions.length).mapM (batchRateItems species reactions labels))
      (batchRateItems species reactions labels ⟨0, reactions.length, reactions.length⟩) := by
  have hw : Batch.members ⟨0, reactions.length, reactions.length⟩ reactions =
      ((batches k reactions.length).map (·.members reactions)).flatten := by
    rw [batches_members k reactions hne, Batch.members, drop_zero]
    exact take_of_length_le (length_zipIdx).le
  have hp := gather_pieces (labelledRateItems species reactions labels)
    ((batches k reactions.length).map (·.members reactions))
  rw [mapM_map] at hp
  rw [batchRateItems_eq, hw]
  exact hp.imp fun groups items h => ⟨h.1, forall₂_map_left_iff.1 h.2⟩

/-! ## The files -/

section Files
variable {t : Target} (ht : t.language = .cuda)

lemma getLast?_ending (s : String) {ending : String} (h : ending.toList ≠ []) :
    (s ++ ending).toList.getLast? = ending.toList.getLast? := by
  rw [String.toList_append, List.getLast?_append_of_ne_nil _ h]

def rateParameters (t : Target) (reactions : List (Reaction ℕ α)) : List String :=
  ["T", "pres", "C", "fwd_rxn_rates", "rev_rxn_rates"] ++ (if passesPartialSums t reactions then ["dot_prod"] else [])

def rateHead (t : Target) (reactions : List (Reaction ℕ α)) (suffix : String) (spaced : Bool) : Signature where
  mark := t.mark
  name := "eval_rxn_rates" ++ suffix
  spaced
  params := let output := t.real ++ " * " ++ "__restrict__"
    [⟨t.scalarType, "T"⟩, ⟨t.referenceType, "pres"⟩, ⟨"const " ++ t.real ++ " * " ++ "__restrict__", "C"⟩,
      ⟨output, "fwd_rxn_rates"⟩, ⟨output, "rev_rxn_rates"⟩]
    ++ (if passesPartialSums t reactions then [⟨output, "dot_prod"⟩] else [])

omit [Arithmetic α] in
lemma rateHead_parameters (suffix : String) (spaced : Bool) :
    (rateHead t reactions suffix spaced).params.map (·.name) = rateParameters t reactions := by
  unfold rateHead rateParameters
  split <;> rfl

/-- The names of the files of batches, without ending. -/
def rateNames (count : ℕ) : List String := (List.range count).map fun k => "rxn_rates_" ++ toString k

lemma rateNames_plain {count : ℕ} : ∀ name ∈ rateNames count, isPlain name = true :=
  forall_mem_map.2 fun k _ => isPlain_numbered (by decide) k

/-- The lines before a rate function on the accelerator. -/
def rateLines (t : Target) (calls : Bool) : String :=
  (if calls then "#include \"rates/rates_include" ++ ".cuh" ++ "\"\n" else "")
    ++ "#include \"" ++ t.fileStart ++ "rates" ++ ".cuh" ++ "\"\n" ++ t.realIncludes

include ht

omit [Arithmetic α] in
lemma rateSignature_eq (suffix : String) (spaced : Bool) :
    rateSignature t reactions suffix spaced = .ok (rateHead t reactions suffix spaced) := by
  simp only [rateSignature, Target.inputType, Target.outputType, ht, Language.noAlias]
  rfl

lemma rateIncludes_eq (calls : Bool) : rateIncludes t calls = .ok (rateLines t calls) := by
  simp only [rateIncludes, ht, Language.headerSuffix]
  rfl

def rateSource (t : Target) (reactions : List (Reaction ℕ α)) (batch : Batch) (k : ℕ) (items : List (Item α)) :
    SourceFile α where
  path := "rates/rxn_rates_" ++ toString k ++ ".cu"
  language := .cuda
  parts := [.text (rateLines t false), .function (rateHead t reactions ("_" ++ toString k) true)
    ((rateIntro t (reactions.any (·.reversible)) ((reactions.take batch.declared).drop (batch.start + 1))).map .step
      ++ items) "\x7d\n\n"]

lemma rateBatchFile_eq (hb : t.bank = none) (batch : Batch) (k : ℕ) :
    rateBatchFile t species reactions labels batch k =
      do return rateSource t reactions batch k (← batchRateItems species reactions labels batch) := by
  have hf : t.freshBank = none := by simp [Target.freshBank, hb]
  simp only [rateBatchFile, hf, placeWith, rateIncludes_eq ht, rateSignature_eq reactions ht, ok_bind, ht,
    Language.sourceSuffix, rateSource]

def wholeSource (t : Target) (reactions : List (Reaction ℕ α)) (items : List (Item α)) : SourceFile α where
  path := t.fileStart ++ "rxn_rates" ++ ".cu"
  language := .cuda
  parts := [.text "", .text (rateLines t false), .function (rateHead t reactions "" true)
    ((rateIntro t (reactions.any (·.reversible)) reactions).map .step ++ items) "\x7d // end eval_rxn_rates\n\n"]

lemma wholeRateFile_eq (hb : t.bank = none) : wholeRateFile t species reactions labels = (do
      let items ← batchRateItems species reactions labels ⟨0, reactions.length, reactions.length⟩
      return wholeSource t reactions items) := by
  have hf : t.freshBank = none := by simp [Target.freshBank, hb]
  simp only [wholeRateFile, hf, placeWith, rateIncludes_eq ht, rateSignature_eq reactions ht, ok_bind, ht,
    Language.sourceSuffix, wholeSource]
  rfl

/-- The main source that calls the functions of the batches. -/
def callingSource (t : Target) (reactions : List (Reaction ℕ α)) (count : ℕ) : SourceFile α where
  path := t.fileStart ++ "rxn_rates" ++ ".cu"
  language := .cuda
  parts := [.text (rateLines t true), .function (rateHead t reactions "" true)
    ((List.range count).map fun k => .step (.call 2 ("eval_rxn_rates_" ++ toString k) false
      ((rateParameters t reactions).map .var))) "\x7d // end eval_rxn_rates\n\n"]

omit [Arithmetic α] in
lemma callingRateFile_eq (count : ℕ) : callingRateFile t reactions count = .ok (callingSource t reactions count) := by
  have ha : ([.T, .pres, .var "C", .var "fwd_rxn_rates", .var "rev_rxn_rates"] : List (Expr α))
      ++ (if passesPartialSums t reactions then [.var "dot_prod"] else []) = (rateParameters t reactions).map .var := by
    unfold rateParameters
    split <;> rfl
  simp only [callingRateFile, ha, rateIncludes_eq ht, rateSignature_eq reactions ht, ok_bind, ht, Language.sourceSuffix]
  rfl

omit [Arithmetic α] in
lemma ratesHeader_ok : ∃ he, ratesHeader t reactions = .ok he ∧ he.functions = [] := by
  simp only [ratesHeader, modificationSignature, speciesRateSignature, Target.inputType, Target.outputType, ht,
    Language.noAlias, Language.headerSuffix, rateSignature_eq reactions ht, ok_bind]
  refine ⟨_, rfl, ?_⟩
  cases hmd : reactions.any (·.isModified) <;> rfl

def rateBatchHead (t : Target) (reactions : List (Reaction ℕ α)) (k : ℕ) : SourceFile α where
  path := "rates/rxn_rates_" ++ toString k ++ ".cuh"
  language := .cuda
  parts := [
    .text ("#ifndef RATES_HEAD_" ++ toString k ++ "\n#define RATES_HEAD_" ++ toString k ++ "\n\n#include \"header"
      ++ ".cuh" ++ "\"\n\n"),
    .prototype (rateHead t reactions ("_" ++ toString k) false), .text "#endif\n"]

omit [Arithmetic α] in
lemma rateBatchHeader_eq (k : ℕ) : rateBatchHeader t reactions k = .ok (rateBatchHead t reactions k) := by
  simp only [rateBatchHeader, ht, Language.headerSuffix, rateSignature_eq reactions ht, ok_bind]
  rfl

/-- The header that brings in the headers of batches. -/
def rateIncludeHead (count : ℕ) : SourceFile α where
  path := "rates/rates_include.cuh"
  language := .cuda
  parts := [.text ("#ifndef RATES_INCLUDE_cuda\n#define RATES_INCLUDE_cuda\n"
    ++ String.join ((rateNames count).map fun name => "#include \"" ++ name ++ ".cuh\"\n") ++ "\n#endif\n")]

omit [Arithmetic α] in
lemma rateIncludeFile_eq (count : ℕ) :
    (rateIncludeFile t count : Except Fault (SourceFile α)) = .ok (rateIncludeHead count) := by
  have hl : ∀ k : ℕ, "#include \"rxn_rates_" ++ toString k ++ ".cuh" ++ "\"\n" =
      "#include \"" ++ ("rxn_rates_" ++ toString k) ++ ".cuh\"\n" := by
    intro k
    rw [← String.toList_inj]
    simp
  simp only [rateIncludeFile, ht, Language.headerSuffix, ok_bind, hl, rateIncludeHead, rateNames, map_map]
  rfl

def rateList (count : ℕ) : SourceFile α where
  path := "rates/rate_list_cuda"
  language := .cuda
  parts := [.text (String.intercalate " " ((rateNames count).map fun name => name ++ Language.cuda.sourceSuffix))]

omit [Arithmetic α] in
lemma rateListFile_eq (count : ℕ) : (rateListFile t count : SourceFile α) = rateList count := by
  simp only [rateListFile, ht, rateNames, rateList, map_map]
  rfl

/-- The files of split rates, with given code for the batches. -/
def splitRateFiles (t : Target) (reactions : List (Reaction ℕ α)) (header : SourceFile α) (all : List Batch)
    (groups : List (List (Item α))) : List (SourceFile α) :=
  [header, callingSource t reactions all.length]
    ++ (all.zip groups).zipIdx.map (fun p => rateSource t reactions p.1.1 p.2 p.1.2)
    ++ (List.range all.length).map (rateBatchHead t reactions)
    ++ [rateIncludeHead all.length, rateList all.length]

/-- Code that is split stops like code that is not, or it is the same code. -/
lemma reactionRateFiles_pieces (hb : t.bank = none) {length : ℕ} {limit : ℤ} (hne : reactions ≠ [])
    (hs : length < reactions.length) (hw : reactions.length ≤ limit) :
    Matches (fun split whole => ∃ he groups, he.functions = [] ∧
        List.Forall₂ (fun b group => batchRateItems species reactions labels b = .ok group)
          (batches length reactions.length) groups ∧
        split = splitRateFiles t reactions he (batches length reactions.length) groups ∧
        whole = [he, wholeSource t reactions groups.flatten])
      (reactionRateFiles t length species reactions labels) (reactionRateFiles t limit species reactions labels) := by
  obtain ⟨he, hh, hf⟩ := ratesHeader_ok reactions ht
  have hd : t.onDevice = true := by simp [Target.onDevice, ht]
  have hlength : decide ((length : ℤ) < reactions.length) = true := by simpa using hs
  have hl : decide (limit < (reactions.length : ℤ)) = false := by simpa using hw
  have hhd : ∀ count, (List.range count).mapM (rateBatchHeader t reactions) =
      .ok ((List.range count).map (rateBatchHead t reactions)) :=
    fun count => mapM_eq_ok_map fun k _ => rateBatchHeader_eq reactions ht k
  simp only [reactionRateFiles, hh, hd, hlength, hl, Bool.and_self, Bool.and_false, if_true,
    Bool.false_eq_true, if_false, ok_bind, rateBatchFile_eq species reactions labels ht hb, hhd,
    callingRateFile_eq reactions ht, rateIncludeFile_eq ht, wholeRateFile_eq species reactions labels ht hb]
  have hfl := (matches_mapM_zipIdx (batchRateItems species reactions labels) (rateSource t reactions)
    (batches length reactions.length) 0).trans (batchRateItems_pieces species reactions labels length hne)
  rw [bind_assoc]
  refine hfl.bind fun files items hpc => .ok ?_
  obtain ⟨groups, rfl, rfl, hg⟩ := hpc
  refine ⟨he, groups, hf, hg, ?_, rfl⟩
  rw [rateListFile_eq ht]
  rfl

/-! ## What the files hold -/

omit ht [Arithmetic α] in
lemma rateIntro_actions (hb : t.bank = none) (anyReversible : Bool) (declared : List (Reaction ℕ α)) :
    actions ((rateIntro t anyReversible declared).map .step) = [] := by
  rw [actions, filter_eq_nil_iff, forall_mem_map]
  intro s hs
  have hl : ∀ name, (Item.step (t.localReal name none : Step α)).acts = false := fun _ => rfl
  simp only [rateIntro, rateDeclarations, hb, Option.isSome_none, Bool.false_eq_true, if_false, flatten_cons, flatten_nil,
    mem_append, mem_ite_nil_left, mem_ite_nil_right, mem_cons, not_mem_nil, or_false, false_or] at hs
  have ha : (Item.step s).acts = false := by
    aesop
  rw [ha]
  exact Bool.false_ne_true

def rateFunctions (t : Target) (reactions : List (Reaction ℕ α)) (all : List Batch) (groups : List (List (Item α))) :
    List (Signature × List (Item α)) :=
  (all.zip groups).zipIdx.map fun p => (rateHead t reactions ("_" ++ toString p.2) true,
    (rateIntro t (reactions.any (·.reversible)) ((reactions.take p.1.1.declared).drop (p.1.1.start + 1))).map .step
      ++ p.1.2)

omit ht [Arithmetic α] in
lemma splitRateFiles_functions {he : SourceFile α} (hh : he.functions = []) (all : List Batch)
    (groups : List (List (Item α))) : functionsIn (splitRateFiles t reactions he all groups) =
      (callingSource t reactions all.length).functions ++ rateFunctions t reactions all groups := by
  have hhd : functionsIn ((List.range all.length).map (rateBatchHead t reactions)) = [] :=
    functionsIn_eq_nil (forall_mem_map.2 fun k _ => rfl)
  have hs : functionsIn ((all.zip groups).zipIdx.map fun p => rateSource t reactions p.1.1 p.2 p.1.2) =
      rateFunctions t reactions all groups := by
    rw [functionsIn, flatMap_map]
    exact map_eq_flatMap.symm
  rw [splitRateFiles, functionsIn_append, functionsIn_append, functionsIn_append, functionsIn_cons, functionsIn_cons,
    hh, hs, hhd, nil_append, append_nil]
  exact append_nil _

section Functions
variable {all : List Batch} {groups : List (List (Item α))} (hlength : all.length = groups.length)

include hlength

omit ht [Arithmetic α] in
lemma rateFunctions_names (f : String → β) : (rateFunctions t reactions all groups).map (fun x => f x.1.name) =
    (List.range all.length).map fun k => f ("eval_rxn_rates_" ++ toString k) := by
  have hn : ∀ k : ℕ, "eval_rxn_rates" ++ ("_" ++ toString k) = "eval_rxn_rates_" ++ toString k := by
    intro k
    rw [← String.append_assoc]
    rfl
  rw [rateFunctions, map_map]
  refine (map_zipIdx_snd (fun k => f ("eval_rxn_rates" ++ ("_" ++ toString k))) _).trans ?_
  simp only [hn, length_zip, ← hlength, min_self]

omit ht [Arithmetic α] in
lemma rateFunctions_bodies {f : List (Item α) → List β}
    (hf : ∀ declared body, f ((rateIntro t (reactions.any (·.reversible)) declared).map .step ++ body) = f body) :
    (rateFunctions t reactions all groups).flatMap (fun x => f x.2) = groups.flatMap f := by
  rw [rateFunctions, flatMap_map, flatMap_def, flatMap_def]
  simp only [hf]
  rw [map_zipIdx_fst (fun p : Batch × List (Item α) => f p.2) (all.zip groups)]
  conv_rhs => rw [← map_snd_zip hlength.ge, map_map]
  rfl

omit ht [Arithmetic α] in
/-- Each function stands in the source of its batch. The paths of other files differ in their last letter
or in the one after `rates/r`. -/
lemma rateFunctions_sources (he : SourceFile α) :
    List.Forall₂ (fun f name => ∃ source, fileAt (splitRateFiles t reactions he all groups)
        (Path.join "rates" name ++ ".cu") = some source ∧ source.functions = [f])
      (rateFunctions t reactions all groups) (rateNames all.length) := by
  have hn : rateNames all.length = (all.zip groups).zipIdx.map fun p => "rxn_rates_" ++ toString p.2 := by
    rw [map_zipIdx_snd (fun k => "rxn_rates_" ++ toString k), length_zip, ← hlength, min_self]
    rfl
  have hpaths : (((all.zip groups).zipIdx.map fun p => rateSource t reactions p.1.1 p.2 p.1.2).map (·.path)).Nodup := by
    rw [map_map]
    refine ((map_zipIdx_snd (fun k => "rates/rxn_rates_" ++ toString k ++ ".cu") (all.zip groups)).symm ▸
      List.Nodup.map ?_ nodup_range :)
    intro k k' h
    exact Nat.repr_inj.1 (by simpa using h)
  rw [hn, rateFunctions, forall₂_map_left_iff, forall₂_map_right_iff, forall₂_same]
  intro p hp
  have hph : Path.join "rates" ("rxn_rates_" ++ toString p.2) ++ ".cu" =
      (rateSource t reactions p.1.1 p.2 p.1.2).path := by
    rw [← String.toList_inj]
    simp [Path.join, Path.isAbsolute, rateSource]
  have hlast : (rateSource t reactions p.1.1 p.2 p.1.2).path.toList.getLast? = some 'u' := getLast?_ending _ (by decide)
  have hheads : fileAt ((List.range all.length).map (rateBatchHead t reactions))
      (rateSource t reactions p.1.1 p.2 p.1.2).path = none := by
    refine fileAt_eq_none (forall_mem_map.2 fun k _ heq => ?_)
    have hh : (rateBatchHead t reactions k).path.toList.getLast? = some 'h' := getLast?_ending _ (by decide)
    rw [heq, hlast] at hh
    cases hh
  have hrest : fileAt [(rateIncludeHead all.length : SourceFile α), rateList all.length]
      (rateSource t reactions p.1.1 p.2 p.1.2).path = none := by
    refine fileAt_eq_none fun f hf heq => ?_
    have hx : (rateSource t reactions p.1.1 p.2 p.1.2).path.toList[7]? = some 'x' := by simp [rateSource]
    rw [← heq] at hx
    rcases mem_cons.1 hf with rfl | hf
    · simp [rateIncludeHead] at hx
    · rw [mem_singleton.1 hf] at hx
      simp [rateList] at hx
  rw [hph, splitRateFiles, fileAt_append, hrest, Option.none_or, fileAt_append, hheads, Option.none_or, fileAt_append,
    fileAt_of_nodup hpaths (mem_map_of_mem hp)]
  exact ⟨_, rfl, rfl⟩

end Functions

end Files

/-! ## Splitting changes nothing -/

/-- Rate code that is split into files is the code that is not split. If the one stops, so does the other, with the
same fault. Otherwise the main function calls the functions of all other files once each, with its own parameters, and
their bodies put together do what the body of the unsplit function does. Each reaction has its rate assigned in
one of them, and the list and the index name these files and no others. -/
theorem split_rates_same_code [Written α] {t : Target} (ht : t.language = .cuda) (hbank : t.bank = none)
    {length limit : ℤ} (hlength : 1 ≤ length) (hsplit : length < reactions.length) (hwhole : reactions.length ≤ limit) :
    Matches (fun split whole => ∃ head main functions body names,
        functionsIn split = (head, main) :: functions ∧ functionsIn whole = [(head, body)] ∧
        head.name = "eval_rxn_rates" ∧ (∀ f ∈ functions, f.1.params = head.params) ∧
        main = functions.map (fun f => .step (.call 2 f.1.name false (head.params.map fun p => .var p.name))) ∧
        functions.map (·.1.name) = (List.range functions.length).map (fun k => "eval_rxn_rates_" ++ toString k) ∧
        actions (functions.flatMap (·.2)) = actions body ∧
        functions.flatMap (fun f => entriesSet "fwd_rxn_rates" f.2) = (List.range reactions.length).map Nat.cast ∧
        List.Forall₂ (fun f name => ∃ source, fileAt split (Path.join "rates" name ++ ".cu") = some source ∧
          source.functions = [f]) functions names ∧
        (∃ list, fileAt split "rates/rate_list_cuda" = some list ∧
          readParts "rates" "cuda" list.text = some (names.map (Path.join "rates"))) ∧
        ∃ index, fileAt split "rates/rates_include.cuh" = some index ∧
          index.text = "#ifndef RATES_INCLUDE_cuda\n#define RATES_INCLUDE_cuda\n"
            ++ String.join (names.map fun name => "#include \"" ++ name ++ ".cuh\"\n") ++ "\n#endif\n")
      (reactionRateFiles t length species reactions labels) (reactionRateFiles t limit species reactions labels) := by
  obtain ⟨k, rfl⟩ := Int.eq_ofNat_of_zero_le (show 0 ≤ length by omega)
  have hne : reactions ≠ [] := by
    rintro rfl
    simp at hsplit
    omega
  refine (reactionRateFiles_pieces species reactions labels ht hbank hne (by omega) hwhole).imp ?_
  rintro split whole ⟨header, groups, hheader, hgroups, rfl, rfl⟩
  have hsame : (batches k reactions.length).length = groups.length := hgroups.length_eq
  have hcount : batches k reactions.length ≠ [] := by
    intro hnone
    have hmembers := batches_members k reactions hne
    rw [hnone] at hmembers
    exact hne (zipIdx_eq_nil_iff.1 hmembers.symm)
  have hnames : (rateHead t reactions "" true).params.map (fun p => (.var p.name : Expr α)) =
      (rateParameters t reactions).map .var := by
    rw [← rateHead_parameters reactions "" true, map_map]
    rfl
  have hintro : ∀ declared (body : List (Item α)), actions ((rateIntro t (reactions.any (·.reversible)) declared).map .step ++ body) =
      actions body := by
    intro declared body
    rw [actions_append, rateIntro_actions hbank, nil_append]
  have hset : ∀ declared (body : List (Item α)), entriesSet "fwd_rxn_rates" ((rateIntro t (reactions.any (·.reversible)) declared).map
      .step ++ body) = entriesSet "fwd_rxn_rates" body := by
    intro declared body
    rw [entriesSet_append, entriesSet_of_idle _ (rateIntro_actions hbank _ _), nil_append]
  refine ⟨rateHead t reactions "" true, _, rateFunctions t reactions (batches k reactions.length) groups,
    (rateIntro t (reactions.any (·.reversible)) reactions).map .step ++ groups.flatten,
    rateNames (batches k reactions.length).length, splitRateFiles_functions reactions hheader _ _, ?_, by simp [rateHead],
    ?_, ?_, ?_, ?_, ?_, rateFunctions_sources reactions hsame header, ?_, ?_⟩
  · rw [functionsIn_cons, hheader]
    rfl
  · exact forall_mem_map.2 fun p _ => rfl
  · rw [hnames]
    exact (rateFunctions_names reactions hsame fun name => Item.step (.call 2 name false _)).symm
  · have hall := rateFunctions_names (t := t) reactions hsame id
    have hlast := congrArg List.length hall
    simp only [length_map, length_range] at hlast
    rw [hlast]
    exact hall
  · rw [flatMap_def, actions_flatten, flatMap_map, rateFunctions_bodies reactions hsame hintro, actions_append,
      rateIntro_actions hbank, actions_flatten, nil_append]
  · rw [rateFunctions_bodies reactions hsame hset, ← map_zipIdx_snd _ reactions, ← batches_members k reactions hne]
    exact batchRateItems_gathered species reactions labels hgroups
  · refine ⟨rateList (batches k reactions.length).length, by simp [fileAt, splitRateFiles, rateList], ?_⟩
    rw [text_of_parts rfl]
    exact readParts_names "rates" .cuda (by simpa [rateNames] using hcount) rateNames_plain
  · exact ⟨rateIncludeHead (batches k reactions.length).length,
      by simp [fileAt, splitRateFiles, rateList, rateIncludeHead], text_of_parts rfl⟩

/-- The files of two reactions of a species that turns into another. -/
def twoRateFiles (length : ℤ) : Except Fault (List (SourceFile Scalar)) :=
  let r := .elementary false [0] [.int 1] [1] [.int 1] (.int 1) (.int 0) (.int 0)
  reactionRateFiles { language := .cuda } length [] [r, r] [0, 1]

theorem split_rates_same_code_two : ∃ split whole, twoRateFiles 1 = .ok split ∧ twoRateFiles 2 = .ok whole ∧
    ∃ head main functions body, functionsIn split = (head, main) :: functions ∧ functionsIn whole = [(head, body)] ∧
      actions (functions.flatMap (·.2)) = actions body := by
  have h : Matches _ (twoRateFiles 1) (twoRateFiles 2) :=
    split_rates_same_code _ _ _ rfl rfl le_rfl (by decide) (by decide)
  obtain ⟨whole, hwhole⟩ : ∃ whole, twoRateFiles 2 = .ok whole := ⟨_, rfl⟩
  rw [hwhole] at h
  generalize twoRateFiles 1 = result at h
  cases h with
  | ok h =>
    obtain ⟨head, main, functions, body, -, hmain, hbody, -, -, -, -, hactions, -⟩ := h
    exact ⟨_, whole, rfl, hwhole, head, main, functions, body, hmain, hbody, hactions⟩

end Emit

end Kinetics
