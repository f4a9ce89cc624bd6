import Kinetics.Library.Sources
import Kinetics.Proofs.HeaderMarks
/-!
# Lists of parts, written and read back

Code that is split into parts comes with a list of its source files. `readParts_names` reads the list
back, for names of letters, digits and underscores, which is what the names of all parts are made of
(`isPlain_numbered`).
-/

open List

variable {words : List (List Char)}

namespace Kinetics.Text

lemma splitAtChar_intercalate {sep : Char} (hne : words ≠ [])
    (h : ∀ word ∈ words, sep ∉ word) : splitAtChar sep ([sep].intercalate words) = words := by
  induction words with
  | nil => exact absurd rfl hne
  | cons word words ih =>
    rw [forall_mem_cons] at h
    cases words with
    | nil => simpa using splitAtChar_of_not_mem h.1
    | cons next words =>
      rw [intercalate_cons_cons, append_assoc, singleton_append, splitAtChar_append,
        splitAtChar_of_not_mem h.1, ih (by simp) h.2, singleton_append]

lemma lines_of_not_mem {s : String} (hne : s.toList ≠ []) (hf : '\n' ∉ s.toList)
    (hrt : '\r' ∉ s.toList) : lines s = [s.toList] := by
  have ho : ∀ (line rest : List Char), '\n' ∉ rest → line ++ rest ≠ [] →
      linesFrom line rest = [line.reverse ++ rest] := by
    intro line rest
    induction rest generalizing line with
    | nil =>
      intro _ hl
      rw [append_nil] at hl ⊢
      rw [linesFrom, if_neg (by simpa using hl)]
    | cons c rest ih =>
      intro hr _
      rw [mem_cons, not_or] at hr
      rw [linesFrom.eq_3 _ _ _ (fun hc => hr.1 hc.symm), ih (c :: line) hr.2 (by simp)]
      simp
  rw [lines, unifyLineEnds_of_not_mem hrt]
  exact ho [] _ hf (by simpa using hne)

end Kinetics.Text

namespace Kinetics.Library

open Text Comparison

/-! ## Names of parts -/

/-- Whether a character may stand in the name of a part. -/
def isPlainChar (c : Char) : Bool := c.isAlphanum || c == '_'

/-- Whether a text is the name of a part: letters, digits and underscores. -/
def isPlain (name : String) : Bool := !name.toList.isEmpty && name.toList.all isPlainChar

section Names
variable {name : String}

lemma isPlain_iff : isPlain name = true ↔ name.toList ≠ [] ∧ ∀ c ∈ name.toList, isPlainChar c = true := by
  simp [isPlain]

variable {c : Char}

lemma not_mem_of_isPlain (hc : isPlainChar c = false) (h : isPlain name = true) : c ∉ name.toList := by
  intro hm
  rw [(isPlain_iff.1 h).2 c hm] at hc
  cases hc

lemma isBlank_of_isPlainChar (h : isPlainChar c = true) : isBlank c = false := by
  have ha : c.toNat < 128 := by
    simp only [isPlainChar, Char.isAlphanum, Char.isAlpha, Char.isUpper, Char.isLower, Char.isDigit, Bool.or_eq_true,
      Bool.and_eq_true, decide_eq_true_eq, beq_iff_eq, UInt32.le_iff_toNat_le] at h
    rcases h with ((h | h) | h) | rfl
    · exact lt_of_le_of_lt h.2 (by decide)
    · exact lt_of_le_of_lt h.2 (by decide)
    · exact lt_of_le_of_lt h.2 (by decide)
    · decide
  have hal := of_ascii (P := fun c => !isPlainChar c || !isBlank c) (by decide +kernel) ha
  simpa [h] using hal

lemma isPlain_append {other : String} (h : isPlain name = true) (ho : isPlain other = true) :
    isPlain (name ++ other) = true := by
  rw [isPlain_iff] at *
  rw [String.toList_append]
  refine ⟨by simp [h.1], fun c hc => ?_⟩
  rcases mem_append.1 hc with hc | hc
  · exact h.2 c hc
  · exact ho.2 c hc

lemma isPlain_toString (k : ℕ) : isPlain (toString k) = true := by
  rw [isPlain_iff]
  refine ⟨toString_ne_nil k, fun c hc => ?_⟩
  simp [isPlainChar, Char.isAlphanum, isDigit_of_mem_toString hc]

lemma isPlain_numbered (h : isPlain name = true) (k : ℕ) : isPlain (name ++ toString k) = true :=
  isPlain_append h (isPlain_toString k)

end Names

/-! ## The list of the sources -/

section Lists
variable {names : List String}

variable {name : String}

lemma find?_suffix (l : Language) (h : isPlain name = true) :
    find? l.sourceSuffix.toList (name ++ l.sourceSuffix).toList = some name.toList.length := by
  have hd : '.' ∉ name.toList := not_mem_of_isPlain (by decide) h
  obtain ⟨rest, hr⟩ : ∃ rest, l.sourceSuffix.toList = '.' :: rest := by
    cases l <;> exact ⟨_, rfl⟩
  rw [String.toList_append, hr]
  simpa [ find?_of_prefix] using find?_cons_append hd rest ('.' :: rest)

lemma mem_intercalate {sep c : Char} (h : c ∈ [sep].intercalate words) : c = sep ∨ ∃ word ∈ words, c ∈ word := by
  induction words with
  | nil => simp at h
  | cons word words ih =>
    cases words with
    | nil => exact .inr ⟨word, by simp, by simpa using h⟩
    | cons next words =>
      rw [intercalate_cons_cons, append_assoc, mem_append, mem_append, mem_singleton] at h
      rcases h with h | h | h
      · exact .inr ⟨word, by simp, h⟩
      · exact .inl h
      · exact (ih h).imp_right fun ⟨found, hf, hc⟩ => ⟨found, mem_cons_of_mem _ hf, hc⟩

lemma firm_intercalate (hne : words ≠ []) (h : ∀ word ∈ words, Firm word) : Firm ([' '].intercalate words) := by
  induction words with
  | nil => exact absurd rfl hne
  | cons word words ih =>
    rw [forall_mem_cons] at h
    cases words with
    | nil => simpa using h.1
    | cons next words =>
      rw [intercalate_cons_cons]
      exact h.1.append (ih (by simp) h.2) [' ']

lemma firm_source (l : Language) (h : isPlain name = true) :
    Firm (name ++ l.sourceSuffix).toList ∧ ∀ c ∈ (name ++ l.sourceSuffix).toList, isBlank c = false := by
  have hb : ∀ c ∈ (name ++ l.sourceSuffix).toList, isBlank c = false := by
    intro c hc
    rw [String.toList_append, mem_append] at hc
    rcases hc with hc | hc
    · exact isBlank_of_isPlainChar ((isPlain_iff.1 h).2 c hc)
    · have hs : ∀ c ∈ l.sourceSuffix.toList, isBlank c = false := by
        cases l <;> simp [Language.sourceSuffix] <;> decide
      exact hs c hc
  exact ⟨firm_of_forall (by simp [(isPlain_iff.1 h).1]) hb, hb⟩

/-- A list of source files is read back as the paths of the parts. -/
lemma readParts_names (folder : String) (l : Language) (hne : names ≠ []) (h : ∀ name ∈ names, isPlain name = true) :
    readParts folder l.name (String.intercalate " " (names.map fun name => name ++ l.sourceSuffix)) =
      some (names.map (Path.join folder)) := by
  obtain ⟨words, hw⟩ : ∃ words, names.map (fun name => (name ++ l.sourceSuffix).toList) = words := ⟨_, rfl⟩
  have hm : ∀ word ∈ words, ∃ name ∈ names, (name ++ l.sourceSuffix).toList = word := by
    rw [← hw]
    simp
  have hnl : words ≠ [] := by
    rw [← hw]
    simpa using hne
  have ht : (String.intercalate " " (names.map fun name => name ++ l.sourceSuffix)).toList =
      [' '].intercalate words := by
    rw [String.toList_intercalate, map_map, ← hw]
    rfl
  have hf : Firm ([' '].intercalate words) := by
    apply firm_intercalate hnl
    intro word hwr
    obtain ⟨name, hn, rfl⟩ := hm word hwr
    exact (firm_source l (h name hn)).1
  -- only blanks separate words, and no line feed stands in one
  have ha : ∀ c, isBlank c = true → ∀ word ∈ words, c ∉ word := by
    intro c hc word hwr hin
    obtain ⟨name, hn, rfl⟩ := hm word hwr
    rw [(firm_source l (h name hn)).2 c hin] at hc
    cases hc
  have hl : ∀ c, isBlank c = true → c ≠ ' ' → c ∉ [' '].intercalate words := by
    intro c hc hs hin
    rcases mem_intercalate hin with hsp | ⟨word, hwr, hin⟩
    · exact hs hsp
    · exact ha c hc word hwr hin
  have hln := lines_of_not_mem
    (by rw [ht]; exact hf.ne_nil) (by rw [ht]; exact hl _ (by decide) (by decide))
    (by rw [ht]; exact hl _ (by decide) (by decide))
  have hn : (Language.ofName l.name).toOption = some l := by cases l <;> rfl
  rw [readParts, hn, hln, ht]
  simp only [Option.bind_eq_bind, Option.bind_some, headD_cons, hf.strip,
    splitAtChar_intercalate hnl (ha ' ' (by decide))]
  rw [← hw]
  clear hln hl ha hf ht hnl hm hw hne
  induction names with
  | nil => rfl
  | cons name names ih =>
    rw [forall_mem_cons] at h
    have htk : (name ++ l.sourceSuffix).toList.take name.toList.length = name.toList := by
      rw [String.toList_append, take_left]
    rw [map_cons, mapM_cons, find?_suffix l h.1, ih h.2, Option.bind_some, htk, String.ofList_toList]
    rfl

end Lists

end Kinetics.Library
