import Kinetics.Comparison.Orders
import Kinetics.Emit.MechanismHeader
import Kinetics.Proofs.Numerals
import Kinetics.Proofs.Outcome
/-!
# What a mechanism header says about itself

The header of generated code has lines from which the numbers of species and reactions and the order
of the species are read again. All other lines, those with the names of species included, say nothing
of the kind (`header_signs`), so that what is read is what was written (`Says.counts`, `Says.marks`).
-/

open List

namespace Kinetics.Comparison

open Text Code Emit

/-! ## Lines -/

/-- What a line says. -/
structure Sign where
  species : Option ℕ := none
  reactions : Option ℕ := none
  last : Option ℕ := none
  reordered : Bool := false
  deriving DecidableEq

def signOf (line : List Char) : Sign where
  species := markedNumber "#define NSP " (lineBody line)
  reactions := markedNumber "#define FWD_RATES " (lineBody line)
  last := markedNumber "//last_spec " (lineBody line)
  reordered := occurs reorderedMark line

lemma readMarks_cons (m : Marks) (line : List Char) (rest : List (List Char)) : readMarks m (line :: rest) =
      if (m.reordered || (signOf line).reordered) && ((signOf line).last.or m.last).isSome then
        ⟨m.reordered || (signOf line).reordered, (signOf line).last.or m.last⟩
      else
        readMarks ⟨m.reordered || (signOf line).reordered, (signOf line).last.or m.last⟩ rest := by
  have hl : (signOf line).last = markedNumber "//last_spec " (lineBody line) := rfl
  rw [readMarks, hl]
  cases markedNumber "//last_spec " (lineBody line) <;> rfl

/-- A text and its lines. -/
structure Laid (text : String) (file : List (List Char)) : Prop where
  whole : text.toList = file.flatten
  each : file.all isLine = true

lemma Laid.lines {text : String} {file : List (List Char)} (h : Laid text file) : Text.lines text = file := by
  rw [← Text.lines_flatten h.each, ← h.whole, String.ofList_toList]

lemma Laid.append {s t : String} {a b : List (List Char)} (hs : Laid s a) (ht : Laid t b) :
    Laid (s ++ t) (a ++ b) := by
  constructor
  · rw [String.toList_append, flatten_append, hs.whole, ht.whole]
  · rw [all_append, hs.each, ht.each]
    rfl

lemma laid_empty : Laid "" [] := ⟨rfl, rfl⟩

/-- What the lines of a text say, one after the other; most say nothing. -/
def Says (text : String) (signs : List Sign) : Prop :=
  ∃ file, Laid text file ∧ (file.map signOf).filter (· ≠ {}) = signs

abbrev Quiet (text : String) : Prop := Says text []

lemma Says.append {s t : String} {a b : List Sign} (hs : Says s a) (ht : Says t b) : Says (s ++ t) (a ++ b) := by
  obtain ⟨x, hx, rfl⟩ := hs
  obtain ⟨y, hy, rfl⟩ := ht
  exact ⟨x ++ y, hx.append hy, by rw [map_append, filter_append]⟩

lemma quiet_iff {text : String} : Quiet text ↔ ∃ file, Laid text file ∧ ∀ line ∈ file, signOf line = {} := by
  simp [Says]

lemma quiet_empty : Quiet "" := ⟨[], laid_empty, rfl⟩

/-- Whether a text is quiet, by going through its lines. -/
def isQuiet (text : List Char) : Bool := (linesFrom [] text).flatten == text &&
    (linesFrom [] text).all fun line => isLine line && decide (signOf line = {})

lemma quiet_of_isQuiet {text : String} (h : isQuiet text.toList = true) : Quiet text := by
  rw [isQuiet, Bool.and_eq_true, beq_iff_eq, all_eq_true] at h
  refine quiet_iff.2 ⟨linesFrom [] text.toList, ⟨h.1.symm, all_eq_true.2 fun line hl => ?_⟩, ?_⟩
  · exact (Bool.and_eq_true_iff.1 (h.2 line hl)).1
  · exact fun line hl => of_decide_eq_true (Bool.and_eq_true_iff.1 (h.2 line hl)).2

lemma quiet_ofList {text : List Char} (h : isQuiet text = true) : Quiet (String.ofList text) := by
  apply quiet_of_isQuiet
  rwa [String.toList_ofList]

/-! ## Lines with numbers -/

def numberLine (words : String) (n : ℕ) : String := words ++ toString n ++ "\n"

lemma isDigit_of_mem_toString {n : ℕ} {c : Char} (h : c ∈ (toString n).toList) : c.isDigit = true := by
  rw [Nat.toString_eq_repr, Nat.toList_repr] at h
  exact Nat.isDigit_of_mem_toDigits (by decide) (by decide) h

lemma decimal_toString (n : ℕ) : Number.decimal (toString n).toList = n := by
  rw [Nat.toString_eq_repr, Nat.toList_repr]
  exact Nat.ofDigitChars_toDigits (by decide) (by decide)

lemma toString_ne_nil (n : ℕ) : (toString n).toList ≠ [] := by
  rw [Nat.toString_eq_repr, Nat.toList_repr]
  exact Nat.toDigits_ne_nil

lemma lineBody_append (body : List Char) : lineBody (body ++ ['\n']) = body := by
  rw [lineBody, List.getLast?_concat, if_pos (by decide), dropLast_concat]

lemma markedNumber_toString {n : ℕ} (hn : n < 10 ^ Number.wholeDigitLimit) (words : String) :
    markedNumber words (words.toList ++ (toString n).toList) = some n := by
  have hd : ∀ c ∈ (toString n).toList, c.isDigit = true := fun _ => isDigit_of_mem_toString
  have hs : Text.startsWith words.toList (words.toList ++ (toString n).toList) = true :=
    startsWith_iff.2 (prefix_append _ _)
  have hdr : (words.toList ++ (toString n).toList).drop words.length = (toString n).toList := by
    rw [← String.length_toList, drop_left]
  have hl : leadingDigits (toString n).toList = (toString n).toList := by
    apply takeWhile_eq_self_iff.2
    intro c hc
    rw [(Number.digitFacts (hd c hc)).value]
    rfl
  have hlen : (toString n).toList.length ≤ Number.wholeDigitLimit := by
    rw [Nat.toString_eq_repr, Nat.toList_repr]
    exact (Nat.length_toDigits_le_iff (by decide) (by decide)).2 hn
  have hr : Number.readWhole (toString n).toList = .ok (n : ℤ) := by
    rw [Number.readWhole_digits hd (toString_ne_nil n), if_pos hlen, decimal_toString]
  unfold markedNumber
  rw [if_pos hs]
  dsimp only
  rw [hdr, hl, hr, if_neg (by simp)]
  rfl

lemma markedNumber_of_clash {words other : String}
    (h : Text.startsWith (words.toList.take other.toList.length) other.toList = false) (rest : List Char) :
    markedNumber words (other.toList ++ rest) = none := by
  unfold markedNumber
  rw [if_neg]
  intro hs
  have hp := (startsWith_iff.1 hs).take other.toList.length
  rw [take_left] at hp
  rw [startsWith_iff.2 hp] at h
  cases h

/-- Whether fixed words fit on a line and have nothing of the mark of reordered code. -/
def isPlain (words : String) : Bool := words.toList.all fun c => c != '\n' && c != '\r' && c != 'C'

section NumberLine
variable {words : String} (hwords : isPlain words = true) (n : ℕ)
include hwords

lemma not_mem_numberLine {c : Char} (hc : c = '\n' ∨ c = '\r' ∨ c = 'C') :
    c ∉ words.toList ++ (toString n).toList := by
  intro hmem
  rcases mem_append.1 hmem with h | h
  · have hp := all_eq_true.1 hwords c h
    rcases hc with rfl | rfl | rfl <;> simp at hp
  · have hd := isDigit_of_mem_toString h
    rcases hc with rfl | rfl | rfl <;> cases hd

/-- A line with a number says what its words make of it. -/
lemma numberLine_signs {species reactions last : Option ℕ}
    (hs : markedNumber "#define NSP " (words.toList ++ (toString n).toList) = species)
    (hr : markedNumber "#define FWD_RATES " (words.toList ++ (toString n).toList) = reactions)
    (hl : markedNumber "//last_spec " (words.toList ++ (toString n).toList) = last) :
    Says (numberLine words n) ([⟨species, reactions, last, false⟩].filter (· ≠ {})) := by
  refine ⟨[words.toList ++ (toString n).toList ++ ['\n']], ⟨by simp [numberLine], ?_⟩, ?_⟩
  · rw [all_cons, all_nil, Bool.and_true]
    exact isLine_iff.2 ⟨_, rfl, not_mem_numberLine hwords n (.inl rfl), not_mem_numberLine hwords n (.inr (.inl rfl))⟩
  · have hm : find? reorderedMark (words.toList ++ (toString n).toList ++ ['\n']) = none := by
      apply find?_eq_none_of_not_mem (c := 'C') (by decide)
      intro hmem
      rcases mem_append.1 hmem with h | h
      · exact not_mem_numberLine hwords n (.inr (.inr rfl)) h
      · exact absurd (mem_singleton.1 h) (by decide)
    rw [map_singleton, signOf, lineBody_append, occurs, hm, hs, hr, hl]
    rfl

lemma quiet_numberLine (hc : (["#define NSP ", "#define FWD_RATES ", "//last_spec "].all fun other =>
      !Text.startsWith (other.toList.take words.toList.length) words.toList) = true) :
    Quiet (numberLine words n) := by
  simp only [all_cons, all_nil, Bool.and_true, Bool.and_eq_true, Bool.not_eq_true'] at hc
  exact numberLine_signs hwords n (markedNumber_of_clash hc.1 _) (markedNumber_of_clash hc.2.1 _)
    (markedNumber_of_clash hc.2.2 _)

end NumberLine

/-! ## The names of the species -/

/-- The line of a species in the list of all species. -/
def speciesLine (p : String × ℕ) : String := toString p.2 ++ "  " ++ p.1 ++ "\n"

lemma intercalate_feed (lines : List (List Char)) (h : lines ≠ []) :
    ['\n'].intercalate lines ++ ['\n'] = lines.flatMap (· ++ ['\n']) := by
  induction lines with
  | nil => exact absurd rfl h
  | cons line lines ih =>
    cases lines with
    | nil => simp [List.intercalate]
    | cons next lines =>
      rw [flatMap_cons, ← ih (by simp)]
      simp [List.intercalate]

lemma speciesComment_eq {names : List String} (h : names ≠ []) : speciesComment names =
      "/* Species Indexes\n" ++ String.join (names.zipIdx.map speciesLine) ++ "*/\n\n" := by
  have he : (fun p : String × ℕ => (speciesLine p).toList) =
      fun p => (toString p.2 ++ "  " ++ p.1).toList ++ ['\n'] := by
    funext p
    simp [speciesLine]
  have hl := intercalate_feed (names.zipIdx.map fun p => (toString p.2 ++ "  " ++ p.1).toList) (by simpa using h)
  apply String.toList_injective
  unfold speciesComment
  rw [String.toList_append, String.toList_append, String.toList_append, String.toList_append,
    String.toList_intercalate, String.toList_join, flatMap_map, he, map_map]
  rw [flatMap_map] at hl
  rw [← hl, append_assoc, append_assoc, append_assoc]
  rfl

lemma markedNumber_of_head {words : String} {c d : Char} {line : List Char}
    (hwords : words.toList.head? = some c) (hcd : c ≠ d) : markedNumber words (d :: line) = none := by
  unfold markedNumber
  rw [if_neg]
  intro hs
  have hp := startsWith_iff.1 hs
  cases hl : words.toList with
  | nil => simp [hl] at hwords
  | cons a rest =>
    rw [hl] at hp hwords
    exact hcd ((Option.some.inj hwords).symm.trans (cons_prefix_cons.1 hp).1)

lemma reorderedMark_eq : reorderedMark = 'C' :: "ache Optimized".toList := by decide

/-- The number of a species and two blanks keep its name from being taken for a mark. -/
lemma signOf_speciesLine {digits name : List Char} (hne : digits ≠ [])
    (hdg : ∀ c ∈ digits, c.isDigit = true) (hn : ∀ c ∈ name, isBlank c = false) :
    signOf (digits ++ [' ', ' '] ++ name ++ ['\n']) = {} := by
  have hm : find? reorderedMark (digits ++ [' ', ' '] ++ name ++ ['\n']) = none := by
    -- the mark has a blank inside, so it can neither start before the name nor lie within it
    have hb : 'C' ∉ digits ++ [' ', ' '] := by
      intro hmem
      rcases mem_append.1 hmem with h | h
      · exact absurd (hdg _ h) (by decide)
      · exact absurd h (by decide)
    have ha : ' ' ∉ name ++ ['\n'] := by
      intro hmem
      rcases mem_append.1 hmem with h | h
      · exact absurd (hn _ h) (by decide)
      · exact absurd h (by decide)
    rw [append_assoc, reorderedMark_eq, find?_cons_append hb, find?_eq_none_of_not_mem (by decide) ha]
    rfl
  unfold signOf occurs
  rw [lineBody_append, hm]
  cases digits with
  | nil => exact absurd rfl hne
  | cons d rest =>
    have hd : d.isDigit = true := hdg d mem_cons_self
    have hh : '#' ≠ d := by
      rintro rfl
      cases hd
    have hs : '/' ≠ d := by
      rintro rfl
      cases hd
    simp only [cons_append]
    rw [markedNumber_of_head (by decide) hh, markedNumber_of_head (by decide) hh, markedNumber_of_head (by decide) hs]
    rfl

lemma quiet_speciesLine {name : String} (hn : ∀ c ∈ name.toList, isBlank c = false) (i : ℕ) :
    Quiet (speciesLine (name, i)) := by
  have hd : ∀ c ∈ (toString i).toList, c.isDigit = true := fun _ => isDigit_of_mem_toString
  refine quiet_iff.2 ⟨[(toString i).toList ++ [' ', ' '] ++ name.toList ++ ['\n']], ⟨by simp [speciesLine], ?_⟩, ?_⟩
  · have ho : ∀ c, c.isDigit = false → isBlank c = true → c ≠ ' ' →
        c ∉ (toString i).toList ++ [' ', ' '] ++ name.toList := by
      intro c hdg hb hs hmem
      simp only [mem_append, mem_cons, not_mem_nil, or_false, or_self] at hmem
      rcases hmem with (h | h) | h
      · simp [hd c h] at hdg
      · exact hs h
      · simp [hn c h] at hb
    rw [all_cons, all_nil, Bool.and_true]
    exact isLine_iff.2 ⟨_, rfl, ho _ (by decide) (by decide) (by decide), ho _ (by decide) (by decide) (by decide)⟩
  · intro line hl
    rw [mem_singleton.1 hl]
    exact signOf_speciesLine (toString_ne_nil i) hd hn

lemma quiet_join {texts : List String} (h : ∀ text ∈ texts, Quiet text) : Quiet (String.join texts) := by
  induction texts with
  | nil => exact quiet_empty
  | cons text texts ih =>
    rw [forall_mem_cons] at h
    rw [String.join_cons]
    exact h.1.append (ih h.2)

lemma quiet_speciesComment {names : List String} (hne : names ≠ [])
    (h : ∀ name ∈ names, ∀ c ∈ name.toList, isBlank c = false) : Quiet (speciesComment names) := by
  rw [speciesComment_eq hne]
  refine ((quiet_ofList (by decide)).append (quiet_join ?_)).append (quiet_ofList (by decide))
  intro text ht
  obtain ⟨p, hp, rfl⟩ := mem_map.1 ht
  exact quiet_speciesLine (h p.1 (fst_mem_of_mem_zipIdx hp)) p.2

/-! ## The whole header -/

section Header
variable {α : Type} [Arithmetic α]

def deviceNames : List String :=
  ["y", "dy", "conc", "fwd_rates", "rev_rates", "spec_rates", "cp", "h", "dBdT", "jac", "var",
    "J_nplusjplus", "pres_mod", "dot_prod"]

lemma deviceArrays_names (species : List (Species α)) (reactions : List (Reaction ℕ α)) :
    Yields (fun arrays => ∀ a ∈ arrays, a.1 ∈ deviceNames) (deviceArrays species reactions) := by
  refine yields_bind fun last => yields_pure.2 ?_
  intro a ha
  simp only [mem_append] at ha
  rcases ha with ((ha | ha) | ha) | ha
  · fin_cases ha <;> decide
  all_goals
    split at ha
    · rw [mem_singleton.1 ha]
      simp [deviceNames]
    · cases ha

lemma quiet_memoryLines (l : Language) {arrays : List (String × String)}
    (h : ∀ a ∈ arrays, a.1 ∈ deviceNames) : Quiet (memoryLines l arrays) := by
  have hn : (deviceNames.all fun name => isQuiet ("  double * ".toList ++ name.toList ++ ";\n".toList)) = true := by
    decide
  unfold memoryLines
  split
  · refine ((((quiet_ofList (by decide)).append (quiet_ofList (by decide))).append
      (quiet_ofList (by decide))).append (quiet_join ?_)).append
      (quiet_ofList (by decide))
    intro text ht
    obtain ⟨a, ha, rfl⟩ := mem_map.1 ht
    apply quiet_of_isQuiet
    rw [String.toList_append, String.toList_append]
    exact all_eq_true.1 hn _ (h a ha)
  · exact quiet_ofList (by decide)

/-- The lines before those on the order of the species. -/
def headerStart (l : Language) (suffix : String) (arrays : List (String × String)) : String :=
  "#ifndef " ++ ("MECHANISM_" ++ (suffix.drop 1).toString) ++ "\n#define " ++
    ("MECHANISM_" ++ (suffix.drop 1).toString) ++ "\n\n" ++ memoryLines l arrays

/-- The lines between the numbers of species and of reactions. -/
def headerMiddle (n : ℕ) : String :=
  "//Number of variables. NN = NSP + 1 (temperature)\n" ++ numberLine "#define NN " (n + 1) ++
    "//Number of forward reactions\n"

def headerEnd (l : Language) (reactions : List (Reaction ℕ α)) : String :=
  "//Number of reversible reactions\n" ++ numberLine "#define REV_RATES " (reactions.countP (·.reversible)) ++
    "//Number of reactions with pressure modified rates\n" ++
    numberLine "#define PRES_MOD_RATES " (reactions.countP (·.isModified)) ++
    ("\n" ++ "//Must be implemented by user on a per mechanism basis in mechanism" ++ l.sourceSuffix ++
      "\n" ++ mechanismDeclarations)

omit [Arithmetic α] in
lemma mechanismCounts_eq (n : ℕ) (reactions : List (Reaction ℕ α)) :
    mechanismCounts n reactions = "//Number of species\n" ++ numberLine "#define NSP " n ++
      headerMiddle n ++ numberLine "#define FWD_RATES " reactions.length ++
      "//Number of reversible reactions\n" ++
      numberLine "#define REV_RATES " (reactions.countP (·.reversible)) ++
      "//Number of reactions with pressure modified rates\n" ++
      numberLine "#define PRES_MOD_RATES " (reactions.countP (·.isModified)) ++ "\n" := by
  have hs : "//Number of species\n#define NSP " = "//Number of species\n" ++ "#define NSP " := by
    simp only [String.reduceAppend]
  have hv : "\n//Number of variables. NN = NSP + 1 (temperature)\n#define NN " =
    "\n" ++ ("//Number of variables. NN = NSP + 1 (temperature)\n" ++ "#define NN ") := by
    simp only [String.reduceAppend]
  have hf : "\n//Number of forward reactions\n#define FWD_RATES " =
    "\n" ++ ("//Number of forward reactions\n" ++ "#define FWD_RATES ") := by
    simp only [String.reduceAppend]
  have hr : "\n//Number of reversible reactions\n#define REV_RATES " =
    "\n" ++ ("//Number of reversible reactions\n" ++ "#define REV_RATES ") := by
    simp only [String.reduceAppend]
  have hm : "\n//Number of reactions with pressure modified rates\n#define PRES_MOD_RATES " =
    "\n" ++ ("//Number of reactions with pressure modified rates\n" ++ "#define PRES_MOD_RATES ") := by
    simp only [String.reduceAppend]
  have hfd : "\n\n" = "\n" ++ "\n" := by
    simp only [String.reduceAppend]
  unfold mechanismCounts headerMiddle
  rewrite [hs, hv, hf, hr, hm, hfd]
  simp only [numberLine, String.append_assoc]

omit [Arithmetic α] in
lemma mechanismHeaderText_eq (l : Language) (suffix : String) (arrays : List (String × String))
    (names : List String) (reactions : List (Reaction ℕ α)) {o : SpeciesOrder} {last : ℕ}
    (hl : o.last = some (last : ℤ)) :
    mechanismHeaderText l suffix arrays names reactions o =
      headerStart l suffix arrays ++ ((if o.optimized then "//Cache Optimized\n" else "") ++
        (numberLine "//last_spec " last ++ ((speciesComment names ++ "//Number of species\n") ++
          (numberLine "#define NSP " names.length ++ (headerMiddle names.length ++
            (numberLine "#define FWD_RATES " reactions.length ++ headerEnd l reactions)))))) := by
  have hln : lastSpeciesLine o = numberLine "//last_spec " last := by
    have hn : toString (last : ℤ) = toString last := rfl
    rw [lastSpeciesLine, hl, numberLine, ← hn]
  unfold mechanismHeaderText headerStart headerEnd
  rw [hln, mechanismCounts_eq]
  simp only [String.append_assoc]

lemma quiet_declarations : Quiet mechanismDeclarations :=
  ((((quiet_ofList (by decide)).append (quiet_ofList (by decide))).append
    (quiet_ofList (by decide))).append (quiet_ofList (by decide))).append
    (quiet_ofList (by decide))

section Quiet
variable {l : Language} {suffix : String} (hsuffix : headerOnly l = .ok suffix)
include hsuffix

lemma quiet_headerStart {arrays : List (String × String)} (h : ∀ a ∈ arrays, a.1 ∈ deviceNames) :
    Quiet (headerStart l suffix arrays) := by
  refine Says.append (a := []) ?_ (quiet_memoryLines l h)
  cases l with
  | c =>
    cases hsuffix
    exact quiet_of_isQuiet (by decide)
  | cuda =>
    cases hsuffix
    exact quiet_of_isQuiet (by decide)
  | fortran => cases hsuffix
  | matlab => cases hsuffix

omit [Arithmetic α] in
lemma quiet_headerEnd (reactions : List (Reaction ℕ α)) : Quiet (headerEnd l reactions) := by
  refine ((((quiet_ofList (by decide)).append
    (quiet_numberLine (by decide) _ (by decide))).append
    (quiet_ofList (by decide))).append
    (quiet_numberLine (by decide) _ (by decide))).append (Says.append (a := []) ?_ quiet_declarations)
  cases l with
  | c => exact quiet_of_isQuiet (by decide)
  | cuda => exact quiet_of_isQuiet (by decide)
  | fortran => cases hsuffix
  | matlab => cases hsuffix

end Quiet

lemma quiet_headerMiddle (n : ℕ) : Quiet (headerMiddle n) := ((quiet_ofList (by decide)).append
    (quiet_numberLine (by decide) _ (by decide))).append
    (quiet_ofList (by decide))

/-- What a header says. -/
def headerSigns (optimized : Bool) (last n k : ℕ) : List Sign :=
  (if optimized then [{ reordered := true }] else []) ++
    [{ last := some last }, { species := some n }, { reactions := some k }]

omit [Arithmetic α] in
lemma header_signs {l : Language} {suffix : String} (hsuffix : headerOnly l = .ok suffix)
    {arrays : List (String × String)} (ha : ∀ a ∈ arrays, a.1 ∈ deviceNames) {names : List String}
    (hne : names ≠ []) (hns : ∀ name ∈ names, ∀ c ∈ name.toList, isBlank c = false)
    (reactions : List (Reaction ℕ α)) {o : SpeciesOrder} {last : ℕ} (hls : o.last = some (last : ℤ))
    (hl : last < 10 ^ Number.wholeDigitLimit) (hn : names.length < 10 ^ Number.wholeDigitLimit)
    (hk : reactions.length < 10 ^ Number.wholeDigitLimit) :
    Says (mechanismHeaderText l suffix arrays names reactions o)
      (headerSigns o.optimized last names.length reactions.length) := by
  have hsorted : Says (if o.optimized then "//Cache Optimized\n" else "")
      (if o.optimized then [{ reordered := true }] else []) := by
    cases o.optimized with
    | false => exact quiet_empty
    | true => exact ⟨["//Cache Optimized\n".toList], ⟨by decide, by decide⟩, by decide⟩
  have hlast : Says (numberLine "//last_spec " last) [{ last := some last }] :=
    numberLine_signs (by decide) last (markedNumber_of_clash (by decide) _)
      (markedNumber_of_clash (by decide) _) (markedNumber_toString hl _)
  have hspecies : Says (numberLine "#define NSP " names.length) [{ species := some names.length }] :=
    numberLine_signs (by decide) names.length (markedNumber_toString hn _)
      (markedNumber_of_clash (by decide) _) (markedNumber_of_clash (by decide) _)
  have hreactions : Says (numberLine "#define FWD_RATES " reactions.length) [{ reactions := some reactions.length }] :=
    numberLine_signs (by decide) reactions.length (markedNumber_of_clash (by decide) _)
      (markedNumber_toString hk _) (markedNumber_of_clash (by decide) _)
  rw [mechanismHeaderText_eq l suffix arrays names reactions hls]
  have htitle : Quiet "//Number of species\n" := quiet_ofList (by decide)
  exact (quiet_headerStart hsuffix ha).append (hsorted.append (hlast.append (((quiet_speciesComment hne hns).append
    htitle).append (hspecies.append ((quiet_headerMiddle _).append (hreactions.append (quiet_headerEnd hsuffix reactions)))))))

end Header

/-! ## Reading the header again -/

section Reading
variable {he : String} {optimized : Bool} {last n k : ℕ}

lemma findSome?_signs {signs : List Sign} (h : Says he signs) {f : Sign → Option ℕ} (hf : f {} = none) :
    ((Text.lines he).findSome? fun line => f (signOf line)) = signs.findSome? f := by
  obtain ⟨file, hl, rfl⟩ := h
  rw [hl.lines]
  clear hl
  induction file with
  | nil => rfl
  | cons line file ih =>
    rw [List.findSome?_cons, ih]
    by_cases hq : signOf line = {}
    · simp [hq, hf]
    · simp [hq, List.findSome?_cons]

lemma Says.counts (h : Says he (headerSigns optimized last n k)) : declaredCounts he = (some n, some k) := by
  unfold declaredCounts
  dsimp only
  rw [List.findSome?_map, List.findSome?_map]
  refine Prod.ext ((findSome?_signs h (f := Sign.species) rfl).trans ?_) ((findSome?_signs h (f := Sign.reactions) rfl).trans ?_)
  all_goals cases optimized <;> rfl

/-- Reads marks from what the lines say. -/
def followSigns (m : Marks) : List Sign → Marks
  | [] => m
  | sign :: rest =>
    if (m.reordered || sign.reordered) && (sign.last.or m.last).isSome then
      ⟨m.reordered || sign.reordered, sign.last.or m.last⟩
    else followSigns ⟨m.reordered || sign.reordered, sign.last.or m.last⟩ rest

lemma readMarks_eq (m : Marks) (hm : (m.reordered && m.last.isSome) = false) (file : List (List Char)) :
    readMarks m file = followSigns m ((file.map signOf).filter (· ≠ {})) := by
  induction file generalizing m with
  | nil => rfl
  | cons line file ih =>
    rw [readMarks_cons]
    by_cases hq : signOf line = {}
    · simp [hq, hm, ih m hm]
    · rw [map_cons, filter_cons_of_pos (by simpa using hq), followSigns]
      split
      · rfl
      · next hn => exact ih _ (by simpa using hn)

lemma Says.marks (h : Says he (headerSigns optimized last n k)) :
    readMarks {} (Text.lines he) = ⟨optimized, some last⟩ := by
  obtain ⟨file, hl, hs⟩ := h
  rw [hl.lines, readMarks_eq {} rfl, hs]
  cases optimized <;> rfl

end Reading

end Kinetics.Comparison
