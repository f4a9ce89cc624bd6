import Kinetics.Jacobian.Files
import Kinetics.Proofs.Exact
import Kinetics.Proofs.SlotDiscipline
import Kinetics.Proofs.Triples
/-!
# Numbered functions

A Jacobian with many reactions is split into numbered functions with files of their own.
Which of them the main function calls and what stands in their files after later files have
replaced earlier ones is read off here: `called` lists the calls of a body, `fileAt` finds the
file that stays at a path, and `Added` says that a loop adds functions one after the other.
-/

open List

namespace Kinetics.Code

variable {α : Type}

/-! ## Calls and files -/

def Step.callee : Step α → Option String
  | .call _ name _ _ => some name
  | _ => none

section Callees

@[simp] lemma callee_call (indent : ℕ) (name : String) (spaced : Bool) (arguments : List (Expr α)) :
    (Step.call indent name spaced arguments).callee = some name := rfl

@[simp] lemma callee_assign (indent : ℕ) (target : Expr α) (form : Form) (value : Expr α) :
    (Step.assign indent target form value).callee = none := rfl

@[simp] lemma callee_declare (indent : ℕ) (type : String) (names : List String) (size : Option ℤ)
    (value : Option (Expr α)) (ending : Ending) :
    (Step.declare indent type names size value ending).callee = none := rfl

@[simp] lemma callee_remark (text : String) : (Step.remark text : Step α).callee = none := rfl

@[simp] lemma callee_blank : (Step.blank : Step α).callee = none := rfl

@[simp] lemma callee_line (text : String) : (Step.line text : Step α).callee = none := rfl

end Callees

def Item.callees : Item α → List String
  | .step s => s.callee.toList
  | .split _ _ below above => (below ++ above).filterMap Step.callee
  | .choice _ arms _ => arms.flatMap fun arm => arm.2.filterMap Step.callee
  | .load _ | .release _ | .consult _ => []

/-- The functions that a body calls, in the order of its text. -/
def called (body : List (Item α)) : List String := body.flatMap Item.callees

lemma called_append (xs ys : List (Item α)) : called (xs ++ ys) = called xs ++ called ys := flatMap_append

lemma called_steps (steps : List (Step α)) : called (steps.map .step) = steps.filterMap Step.callee := by
  induction steps with
  | nil => rfl
  | cons s steps ih =>
    rw [map_cons, called, filterMap_cons]
    change s.callee.toList ++ called (steps.map .step) = _
    rw [ih]
    cases s.callee <;> rfl

lemma called_eq_nil {body : List (Item α)} (h : ∀ item ∈ body, item.callees = []) : called body = [] :=
  flatMap_eq_nil_iff.2 h

/-- The file that stays at a path, if later files replace earlier ones. -/
def fileAt (files : List (SourceFile α)) (path : String) : Option (SourceFile α) :=
  files.reverse.find? fun f => f.path == path

lemma fileAt_append (xs ys : List (SourceFile α)) (path : String) :
    fileAt (xs ++ ys) path = (fileAt ys path).or (fileAt xs path) := by
  rw [fileAt, reverse_append, List.find?_append]
  rfl

variable {files : List (SourceFile α)}

lemma fileAt_eq_none {path : String} (h : ∀ f ∈ files, f.path ≠ path) : fileAt files path = none := by
  rw [fileAt, List.find?_eq_none]
  intro f hf
  simpa using h f (mem_reverse.1 hf)

lemma fileAt_singleton (f : SourceFile α) : fileAt [f] f.path = some f := by
  simp [fileAt]

/-! ## Functions in files -/

/-- The head and the body of the function that a part of a file defines. -/
def FilePart.function? : FilePart α → Option (Signature × List (Item α))
  | .function head body _ => some (head, body)
  | _ => none

/-- The functions that a file defines, in the order of its text. -/
def SourceFile.functions (f : SourceFile α) : List (Signature × List (Item α)) := f.parts.filterMap FilePart.function?

def functionsIn (files : List (SourceFile α)) : List (Signature × List (Item α)) := files.flatMap SourceFile.functions

section Functions

@[simp] lemma function?_function (head : Signature) (body : List (Item α)) (closing : String) :
    (FilePart.function head body closing).function? = some (head, body) := rfl

@[simp] lemma function?_text (s : String) : (FilePart.text s : FilePart α).function? = none := rfl

@[simp] lemma function?_prototype (s : Signature) : (FilePart.prototype s : FilePart α).function? = none := rfl

lemma functionsIn_append (xs ys : List (SourceFile α)) : functionsIn (xs ++ ys) = functionsIn xs ++ functionsIn ys :=
  flatMap_append

lemma functionsIn_cons (f : SourceFile α) (files : List (SourceFile α)) :
    functionsIn (f :: files) = f.functions ++ functionsIn files := rfl

lemma functionsIn_eq_nil (h : ∀ f ∈ files, f.functions = []) : functionsIn files = [] := flatMap_eq_nil_iff.2 h

end Functions

end Kinetics.Code

namespace Kinetics.Jacobian

open Code Emit

variable {α : Type} {t : Target}

/-! ## Names -/

def functionName (k : ℕ) : String := "eval_jacob_" ++ toString (k : ℤ)

def sourcePath (t : Target) (k : ℕ) : String := "jacobs/" ++ batchPath k ++ t.language.sourceSuffix

lemma functionName_injective {k k' : ℕ} (h : functionName k = functionName k') : k = k' := by
  have hn : (k : ℤ).repr = (k' : ℤ).repr := by simpa [functionName] using h
  exact Nat.repr_inj.1 hn

lemma sourcePath_injective {k k' : ℕ} (h : sourcePath t k = sourcePath t k') : k = k' := by
  have hn : (k : ℤ).repr = (k' : ℤ).repr := by simpa [sourcePath, batchPath] using h
  exact Nat.repr_inj.1 hn

lemma header_ne_sourcePath {suffix : String} (hs : t.language.headerSuffix = .ok suffix) (path : String)
    (k : ℕ) : path ++ suffix ≠ sourcePath t k := by
  intro h
  have hls := congrArg (fun s : String => s.toList.getLast?) h
  unfold sourcePath at hls
  cases hl : t.language <;> rw [hl] at hs hls <;> cases hs <;>
    simp [List.getLast?_cons, Language.sourceSuffix] at hls

/-- The main function and the index of all functions have other paths. -/
lemma other_ne_sourcePath (k : ℕ) : "jacob" ++ t.language.sourceSuffix ≠ sourcePath t k ∧
      "jacobs/jac_list_" ++ t.language.name ≠ sourcePath t k := by
  constructor
  · intro h
    have hf := congrArg (fun s : String => s.toList[5]?) h
    cases hl : t.language <;> simp [sourcePath, Language.sourceSuffix, hl] at hf
  · intro h
    have ht := congrArg (fun s : String => s.toList[10]?) h
    simp [sourcePath, batchPath] at ht

lemma main_ne_folder (path : String) : "jacobs/" ++ path ≠ "jacob" ++ t.language.sourceSuffix := by
  intro h
  have hf := congrArg (fun s : String => s.toList[5]?) h
  cases hl : t.language <;> simp [Language.sourceSuffix, hl] at hf

/-! ## Files of one function -/

/-- The only function in the file has a name and, after declarations, given blocks as its body. -/
def Holds (f : SourceFile α) (name : String) (blocks : List (List (Item α))) : Prop :=
  ∃ text head declarations closing, head.name = name ∧
    f.parts = [.text text, .function head ((declarations : List (Step α)).map .step ++ blocks.flatten) closing]

/-- Header and source of the function with a number. -/
structure Numbered (t : Target) (k : ℕ) (files : List (SourceFile α)) (source : SourceFile α) : Prop where
  pair : ∃ header suffix, t.language.headerSuffix = .ok suffix ∧
    header.path = "jacobs/" ++ batchPath k ++ suffix ∧ files = [header, source]
  path : source.path = sourcePath t k

variable {source : SourceFile α} {k : ℕ}

lemma Numbered.fileAt {files : List (SourceFile α)}
    (h : Numbered t k files source) (old : List (SourceFile α)) (k' : ℕ) :
    fileAt (old ++ files) (sourcePath t k') = if k' = k then some source else fileAt old (sourcePath t k') := by
  obtain ⟨⟨he, suffix, hsf, hp, rfl⟩, hs⟩ := h
  have hh : Code.fileAt [he] (sourcePath t k') = none := fileAt_eq_none fun f hf => by
      rw [mem_singleton.1 hf, hp]
      exact header_ne_sourcePath hsf _ k'
  rw [fileAt_append, show [he, source] = [he] ++ [source] from rfl, fileAt_append, hh, Option.or_none]
  split
  · next hk => rw [hk, ← hs, fileAt_singleton, Option.some_or]
  · next hk =>
    rw [fileAt_eq_none, Option.none_or]
    intro f hf
    rw [mem_singleton.1 hf, hs]
    exact fun h => hk (sourcePath_injective h).symm

lemma Numbered.sourceLines [Written α] {files : List (SourceFile α)}
    (h : Numbered t k files source) : sourceLines files = lineCount source.text := by
  obtain ⟨⟨he, suffix, -, -, rfl⟩, -⟩ := h
  rfl

lemma Numbered.folder {files : List (SourceFile α)}
    (h : Numbered t k files source) : ∀ f ∈ files, ∃ path, f.path = "jacobs/" ++ path := by
  obtain ⟨⟨he, suffix, -, hp, rfl⟩, hs⟩ := h
  simp only [mem_cons, not_mem_nil, or_false, forall_eq_or_imp, forall_eq]
  exact ⟨⟨batchPath k ++ suffix, by rw [hp, String.append_assoc]⟩,
    ⟨batchPath k ++ t.language.sourceSuffix, by rw [hs, sourcePath, String.append_assoc]⟩⟩

/-! ## Functions added one after the other -/

/-- A loop adds one called function for each member of a list, with the next number, and a file of
which `P` holds. The files of earlier functions stay. -/
structure Added {β : Type} (t : Target) (P : ℕ → β → SourceFile α → Prop) (out : Split α) (xs : List β)
    (out' : Split α) : Prop where
  count : out'.count = out.count + xs.length
  calls : ∃ new, out'.calls = out.calls ++ new ∧
    new.filterMap Step.callee = (List.range' out.count xs.length).map functionName
  source : ∀ j x, xs[j]? = some x →
    ∃ f, fileAt out'.files (sourcePath t (out.count + j)) = some f ∧ P (out.count + j) x f
  kept : ∀ k < out.count, fileAt out'.files (sourcePath t k) = fileAt out.files (sourcePath t k)
  folder : ∀ f ∈ out'.files, f ∈ out.files ∨ ∃ path, f.path = "jacobs/" ++ path

namespace Added

variable {β : Type} {P : ℕ → β → SourceFile α → Prop} {out out' out'' : Split α} {xs ys : List β}

lemma nil (t : Target) (P : ℕ → β → SourceFile α → Prop) (out : Split α) : Added t P out [] out where
  count := rfl
  calls := ⟨[], by simp, rfl⟩
  source := by simp
  kept _ _ := rfl
  folder f hf := .inl hf

lemma single {files : List (SourceFile α)} {call : Step α} {x : β}
    (hfl : Numbered t out.count files source) (hc : call.callee = some (functionName out.count))
    (hP : P out.count x source) : Added t P out [x] (out.add files call) where
  count := rfl
  calls := ⟨[call], rfl, by simp [hc]⟩
  source j y hy := by
    obtain ⟨rfl, rfl⟩ : j = 0 ∧ x = y := by cases j <;> simp_all
    exact ⟨source, by rw [Split.add, hfl.fileAt, if_pos (Nat.add_zero _)], hP⟩
  kept k hk := by rw [Split.add, hfl.fileAt, if_neg (Nat.ne_of_lt hk)]
  folder f hf := (mem_append.1 hf).imp_right (hfl.folder f)

lemma trans (h : Added t P out xs out') (h' : Added t P out' ys out'') : Added t P out (xs ++ ys) out'' where
  count := by rw [h'.count, h.count, length_append, Nat.add_assoc]
  calls := by
    obtain ⟨new, hc, hn⟩ := h.calls
    obtain ⟨new', hc', hn'⟩ := h'.calls
    refine ⟨new ++ new', by rw [hc', hc, append_assoc], ?_⟩
    rw [filterMap_append, hn, hn', h.count, length_append, ← List.range'_append_1, map_append]
  source j x hj := by
    by_cases hlt : j < xs.length
    · rw [List.getElem?_append_left hlt] at hj
      rw [h'.kept _ (by rw [h.count]; omega)]
      exact h.source j x hj
    · rw [List.getElem?_append_right (by omega)] at hj
      have hs := h'.source _ _ hj
      rwa [h.count, show out.count + xs.length + (j - xs.length) = out.count + j by omega] at hs
  kept k hk := by rw [h'.kept k (by rw [h.count]; omega), h.kept k hk]
  folder f hf := (h'.folder f hf).elim (h.folder f) .inr

lemma leave (h : Added t P out xs out') {files : List (SourceFile α)}
    (hfl : Numbered t out'.count files source) (took : Bool) :
    Added t P out xs { out' with files := out'.files ++ files, tookRest := took } where
  count := h.count
  calls := h.calls
  source j x hj := by
    have hlt : out.count + j < out'.count := by
      rw [h.count]
      have := (List.getElem?_eq_some_iff.1 hj).1
      omega
    rw [hfl.fileAt, if_neg (Nat.ne_of_lt hlt)]
    exact h.source j x hj
  kept k hk := by
    rw [hfl.fileAt, if_neg (by rw [h.count]; omega), h.kept k hk]
  folder f hf := (mem_append.1 hf).elim (h.folder f) fun hf => .inr (hfl.folder f hf)

end Added

/-! ## The main function -/

section Main

lemma workArray_callee (t : Target) (array memory : String) (n : ℕ) :
    Yields (fun s : Step α => s.callee = none) (workArray t array n memory) := by
  unfold workArray
  split
  · exact yields_bind fun qualifier => yields_pure.2 rfl
  · exact yields_pure.2 rfl

/-- What the main function calls before the reaction loop. -/
def startCalls (reactions : List (Reaction ℕ α)) : List String := ["eval_conc", "eval_rxn_rates"]
    ++ (if reactions.countP (·.isModified) = 0 then [] else ["get_rxn_pres_mod"]) ++ ["eval_spec_rates"]

set_option mvcgen.warning false in
lemma mainStart_called (t : Target) (sp : List (Species α)) (rs : List (Reaction ℕ α)) :
    Yields (fun steps => steps.filterMap Step.callee = startCalls rs) (mainStart t sp rs) := by
  have hw (array memory n) := triple_iff_yields.2 (workArray_callee (α := α) t array memory n)
  refine triple_iff_yields.1 ?_
  mvcgen [mainStart, hw]
  all_goals
    simp +zetaDelta only [flatten_cons, startCalls]
    split_ifs <;> simp_all [filterMap_cons, plainDouble, nullArray]

variable {head : Signature}

lemma mainSignature_name (h : mainSignature t = .ok head) : head.name = "eval_jacob" := by
  obtain ⟨qualifier, -, h⟩ := bind_eq_ok.1 h
  cases h
  rfl

variable {split : Bool}

lemma mainHeader_path {f : SourceFile α} (h : mainHeader t split = .ok f) :
    ∃ suffix, t.language.headerSuffix = .ok suffix ∧ f.path = "jacob" ++ suffix := by
  obtain ⟨suffix, hs, h⟩ := bind_eq_ok.1 h
  obtain ⟨head, -, h⟩ := bind_eq_ok.1 h
  cases h
  exact ⟨suffix, hs, rfl⟩

/-- The index stands in the folder of the numbered functions under other names. -/
lemma splitIndex_paths {count : ℕ} {files : List (SourceFile α)} (h : splitIndex t count = .ok files) :
    ∀ f ∈ files, (∃ path, f.path = "jacobs/" ++ path) ∧ ∀ k, f.path ≠ sourcePath t k := by
  obtain ⟨suffix, hs, h⟩ := bind_eq_ok.1 h
  cases h
  simp only [mem_cons, not_mem_nil, or_false, forall_eq_or_imp, forall_eq]
  refine ⟨⟨⟨"jac_include" ++ suffix, ?_⟩, header_ne_sourcePath hs _⟩,
    ⟨"jac_list_" ++ t.language.name, ?_⟩, fun k => (other_ne_sourcePath k).2⟩
  · rfl
  · rfl

def HasMain (t : Target) (files : List (SourceFile α)) (body : List (Item α)) (closing : String) : Prop :=
  ∃ f text head, fileAt files ("jacob" ++ t.language.sourceSuffix) = some f ∧ head.name = "eval_jacob" ∧
    f.parts = [.text text, .function head body closing]

def mainSource (t : Target) (suffix : String) (head : Signature) (body : List (Item α)) (closing : String) :
    SourceFile α where
  path := "jacob" ++ t.language.sourceSuffix
  language := t.language
  parts := [.text ("#include \"jacob" ++ suffix ++ "\"\n\n"), .function head body closing]

variable {suffix closing : String} {body : List (Item α)} {he : SourceFile α}

lemma fileAt_main {others : List (SourceFile α)} (ho : ∀ f ∈ others, ∃ path, f.path = "jacobs/" ++ path) :
    fileAt ([he, mainSource t suffix head body closing] ++ others) ("jacob" ++ t.language.sourceSuffix) =
      some (mainSource t suffix head body closing) := by
  have hn : fileAt others ("jacob" ++ t.language.sourceSuffix) = none := by
    refine fileAt_eq_none fun f hf => ?_
    obtain ⟨path, hp⟩ := ho f hf
    exact hp ▸ main_ne_folder path
  have hm := fileAt_singleton (mainSource t suffix head body closing)
  rw [fileAt_append, hn]
  refine (fileAt_append [he] [_] _).trans ?_
  rw [show "jacob" ++ t.language.sourceSuffix = (mainSource t suffix head body closing).path from rfl, hm,
    Option.some_or]

lemma main_ne_sourcePath (hh : mainHeader t split = .ok he) :
    ∀ f ∈ [he, mainSource t suffix head body closing], ∀ k, f.path ≠ sourcePath t k := by
  obtain ⟨suffix, hs, hp⟩ := mainHeader_path hh
  rw [forall_mem_cons, forall_mem_singleton]
  exact ⟨fun k => hp ▸ header_ne_sourcePath hs _ k, fun k => (other_ne_sourcePath k).1⟩

variable [Arithmetic α]

set_option mvcgen.warning false in
lemma mainDeclarations_called (t : Target) (sp : List (Species α)) (rs : List (Reaction ℕ α)) :
    Yields (fun steps => steps.filterMap Step.callee = []) (mainDeclarations t true sp rs) := by
  have hw (array memory n) := triple_iff_yields.2 (workArray_callee (α := α) t array memory n)
  have hm := any_result (rs.mapM (Reaction.changesLast sp.length))
  refine triple_iff_yields.1 ?_
  mvcgen [mainDeclarations, hw, hm]
  all_goals
    simp +zetaDelta only
    split_ifs <;> simp_all [Target.localReal, plainDouble]

/-- What the code before the reaction loop consists of: it declares an array, and assigns its elements in
conditionals. -/
def SlopeItem (l : Language) (i : Item α) : Prop :=
  (∃ type size value, (type = "double" ∧ value = none ∨ l = .cuda ∧ value = some (.var "d_mem->dBdT")) ∧
    i = .step (.declare 2 type ["dBdT"] size value .semicolon)) ∨
  ∃ midpoint low high, (∀ s ∈ low ++ high, ∃ (k : ℕ) (p : Nasa α),
    s = .assign 4 (.cell "dBdT" k) .set (gibbsSlope p)) ∧ i = .split 2 (.atMost "T" .shortest midpoint) low high

lemma equilibriumSlopeItems_form (l : Language) (sp : List (Species α)) (rs : List (Reaction ℕ α)) :
    Yields (fun items => ∀ i ∈ items, SlopeItem l i) (equilibriumSlopeItems l sp rs) := by
  have hb : ∀ (members : List ℕ) (range : Species α → Nasa α),
      Yields (fun steps : List (Step α) => ∀ s ∈ steps, ∃ (k : ℕ) (p : Nasa α),
          s = .assign 4 (.cell "dBdT" k) .set (gibbsSlope p))
        ((members.mergeSort (· ≤ ·)).mapM fun s => do
          return Step.assign 4 (.cell "dBdT" s) .set (gibbsSlope (range (← entryAt sp s)))) :=
    fun members range => yields_mapM fun k _ => yields_bind fun s => yields_pure.2 ⟨_, _, rfl⟩
  have hen : ∀ declaration : List (Step α), (∀ s ∈ declaration, SlopeItem l (.step s)) →
      Yields (fun items => ∀ i ∈ items, SlopeItem l i) (do
        let groups ← (equilibriumSpecies rs).foldlM (fun groups s => do
          return groupByMidpoint groups (← entryAt sp s).midpoint s) []
        let items ← groups.mapM fun g => do
          let steps := fun (range : Species α → Nasa α) => (g.2.mergeSort (· ≤ ·)).mapM fun s => do
            return Step.assign 4 (.cell "dBdT" s) .set (gibbsSlope (range (← entryAt sp s)))
          return .split 2 (.atMost "T" .shortest g.1) (← steps (·.low)) (← steps (·.high))
        return declaration.map Item.step ++ items : Except Fault (List (Item α))) := by
    intro declaration hd
    refine yields_bind fun groups => ?_
    refine (yields_mapM fun g _ => ?_).bind fun items hit => yields_pure.2 (forall_mem_append.2
      ⟨forall_mem_map.2 hd, hit⟩)
    refine (hb g.2 (·.low)).bind fun low hl => (hb g.2 (·.high)).bind fun high hh => yields_pure.2 ?_
    exact .inr ⟨g.1, low, high, forall_mem_append.2 ⟨hl, hh⟩, rfl⟩
  unfold equilibriumSlopeItems
  split
  · split
    · exact hen _ (forall_mem_singleton.2 (.inl ⟨_, _, none, .inl ⟨rfl, rfl⟩, rfl⟩))
    · next ho =>
      refine Yields.bind (Q := fun _ => l = .cuda) (fun qualifier hq => ?_) fun qualifier hc => ?_
      · cases l <;> simp_all [Language.noAlias]
      · exact hen _ (forall_mem_singleton.2 (.inl ⟨_, _, _, .inr ⟨hc, rfl⟩, rfl⟩))
  · exact hen [] (forall_mem_nil _)

lemma equilibriumSlopeItems_called (l : Language) (sp : List (Species α)) (rs : List (Reaction ℕ α)) :
    Yields (fun items => called items = []) (equilibriumSlopeItems l sp rs) := by
  intro items hit
  refine called_eq_nil fun i hi => ?_
  obtain ⟨type, size, value, -, rfl⟩ | ⟨midpoint, low, high, hst, rfl⟩ :=
    equilibriumSlopeItems_form l sp rs items hit i hi
  · rfl
  · refine filterMap_eq_nil_iff.2 fun s hs => ?_
    obtain ⟨k, p, rfl⟩ := hst s hs
    rfl

lemma mainMiddle_called (t : Target) (sp : List (Species α)) :
    Yields (fun steps => steps.filterMap Step.callee = ["eval_h", "eval_cp"]) (mainMiddle t true sp) := by
  refine (workArray_callee t "h" "h" sp.length).bind fun enthalpies he => ?_
  refine (workArray_callee t "cp" "cp" sp.length).bind fun capacities hc => yields_pure.2 ?_
  simp [filterMap_cons, Target.localReal, Step.setVar, Step.set, plainDouble, finishRemarks, he, hc]

lemma mainRest_called (sp : List (Species α)) (progress : Progress) :
    Yields (fun items => called items = []) (mainRest sp progress) := by
  refine Yields.bind (Q := fun items => ∀ item ∈ items, item.callees = []) ?_ fun items hi => yields_pure.2 ?_
  · refine yields_mapM fun g _ => ?_
    refine Yields.bind (Q := fun steps => steps.filterMap Step.callee = []) ?_ fun low hl =>
      Yields.bind (Q := fun steps => steps.filterMap Step.callee = []) ?_ fun high hh => yields_pure.2 ?_
    · exact yields_bind fun terms => yields_pure.2 rfl
    · exact yields_bind fun terms => yields_pure.2 rfl
    · rw [Item.callees, filterMap_append, hl, hh, append_nil]
  · rw [called_append, called_append, called_eq_nil hi]
    rfl

section Files
variable [Written α] {limits : Limits} {sp : List (Species α)} {rs : List (Reaction ℕ α)}
  {produced entries : List Bool} {files : List (SourceFile α)}

/-- A Jacobian has a language with braces, a reaction and a species. -/
lemma jacobianFiles_inhabited (h : jacobianFiles t limits sp rs produced = .ok (files, entries)) :
    t.language.isBraced = true ∧ rs.isEmpty = false ∧ sp.isEmpty = false := by
  have hbr : t.language.isBraced = true := by
    by_contra hb
    rw [Bool.not_eq_true] at hb
    simp only [jacobianFiles, hb] at h
    cases h
  simp only [jacobianFiles, hbr] at h
  obtain ⟨he, -, h⟩ := bind_eq_ok.1 h
  obtain ⟨start, -, h⟩ := bind_eq_ok.1 h
  obtain ⟨declarations, -, h⟩ := bind_eq_ok.1 h
  obtain ⟨equilibrium, -, h⟩ := bind_eq_ok.1 h
  have hrs : rs.isEmpty = false := by
    by_contra hr
    rw [Bool.not_eq_false] at hr
    simp only [hr] at h
    cases h
  refine ⟨hbr, hrs, ?_⟩
  by_contra hs
  rw [Bool.not_eq_false] at hs
  simp only [hrs, Bool.false_eq_true, if_false] at h
  split at h
  all_goals
    obtain ⟨parts, -, h⟩ := bind_eq_ok.1 h
    cases h

/-- All files of a Jacobian that is split: those of the main function, those of the two loops, and the index. The
main function calls the numbered functions of the two loops where the loops stand. -/
lemma jacobianFiles_split (h : jacobianFiles t limits sp rs produced = .ok (files, entries))
    (hs : limits.reactionBatch < rs.length) : ∃ state loop rest parts body,
      splitReactions t limits.reactionLines ⟨sp, rs, true⟩ limits.reactionBatch.toNat = .ok (state, loop) ∧
      splitSpecies ⟨t, sp, produced, state.progress, limits.speciesLines⟩ rest limits.speciesBatch.toNat loop =
        .ok parts ∧
      ((∀ f ∈ parts.files, ∃ path, f.path = "jacobs/" ++ path) →
        HasMain t files body (if parts.tookRest then "" else mainClosing)) ∧
      (∀ k, fileAt files (sourcePath t k) = fileAt parts.files (sourcePath t k)) ∧
      called body = startCalls rs ++ loop.calls.filterMap Step.callee ++ ["eval_h", "eval_cp"] ++
        (parts.calls.drop loop.calls.length).filterMap Step.callee := by
  obtain ⟨hb, hr, hsp⟩ := jacobianFiles_inhabited h
  simp only [jacobianFiles, hb, hr, hsp, hs] at h
  obtain ⟨he, hh, h⟩ := bind_eq_ok.1 h
  obtain ⟨start, hst, h⟩ := bind_eq_ok.1 h
  obtain ⟨declarations, hd, h⟩ := bind_eq_ok.1 h
  obtain ⟨equilibrium, heq, h⟩ := bind_eq_ok.1 h
  obtain ⟨⟨state, loop⟩, hl, h⟩ := bind_eq_ok.1 h
  simp only [pure_ok, ok_bind] at h
  obtain ⟨middle, hm, h⟩ := bind_eq_ok.1 h
  obtain ⟨rest, hrs, h⟩ := bind_eq_ok.1 h
  obtain ⟨parts, hp, h⟩ := bind_eq_ok.1 h
  obtain ⟨index, hin, h⟩ := bind_eq_ok.1 h
  obtain ⟨suffix, hsf, h⟩ := bind_eq_ok.1 h
  obtain ⟨head, hhd, h⟩ := bind_eq_ok.1 h
  set body := (start ++ declarations).map Item.step ++ equilibrium ++ loop.calls.map .step ++
    (middle ++ parts.calls.drop loop.calls.length).map .step ++ (if parts.tookRest then [] else rest) with hbd
  have hfl : files = [he, mainSource t suffix head body (if parts.tookRest then "" else mainClosing)] ++
      parts.files ++ index := (congrArg Prod.fst (Except.ok.inj h)).symm
  have hi := splitIndex_paths hin
  refine ⟨state, loop, rest, parts, body, hl, hp,
    fun hfd => ⟨mainSource t suffix head body _, _, head, ?_, mainSignature_name hhd, rfl⟩, fun k => ?_, ?_⟩
  · rw [hfl]
    refine fileAt_main fun f hf => ?_
    exact (mem_append.1 hf).elim (hfd f) fun hf => (hi f hf).1
  · rw [hfl, fileAt_append, fileAt_eq_none fun f hf => (hi f hf).2 k, Option.none_or, fileAt_append,
      fileAt_eq_none fun f hf => main_ne_sourcePath hh f hf k, Option.or_none]
  · have hen : called (if parts.tookRest then [] else rest) = [] := by
      split
      · rfl
      · exact mainRest_called sp state.progress rest hrs
    rw [called_append, called_append, called_append, called_append, hen, called_steps, called_steps,
      called_steps, filterMap_append, filterMap_append, mainStart_called t sp rs start hst,
      mainDeclarations_called t sp rs declarations hd,
      equilibriumSlopeItems_called t.language sp rs equilibrium heq,
      mainMiddle_called t sp middle hm]
    simp only [append_nil, append_assoc]

end Files

end Main

end Kinetics.Jacobian
