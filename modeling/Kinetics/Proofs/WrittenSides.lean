import Kinetics.Proofs.Numerals
import Kinetics.Proofs.SoundDrafts
/-!
# Sides of equations written and read

A side of an equation is written as terms with plus signs between them and any blanks around those,
with a third body at its end or without. Reading it gives every name once, in the order in which the
names first occur, with the sum of its coefficients (`WrittenSide.readTerms_words`). The reader
refuses coefficients with more digits than whole numerals may have, and only those.
-/

open List

namespace Kinetics.Reading

open Text

/-! ## Written terms -/

abbrev Blanks := {s : List Char // ∀ c ∈ s, isBlank c = true}

def isPlain (c : Char) : Bool := isLetter c || isDigit c || c == '-' || c == '_'

/-- A term of an equation: the digits of its coefficient, none if it is left out, and a name, which is
not that of a third body. -/
structure Term where
  digits : List Char
  name : List Char
  decimal : ∀ c ∈ digits, c.isDigit = true
  positive : digits ≠ [] → 0 < Number.decimal digits
  start : name.head?.any isLetter = true
  plain : ∀ c ∈ name, isPlain c = true
  notBody : name ≠ ['m'] ∧ name ≠ ['M']

namespace Term

def text (t : Term) : List Char := t.digits ++ t.name

def coefficient (t : Term) : ℕ := if t.digits = [] then 1 else Number.decimal t.digits

def species (t : Term) : String := String.ofList t.name

/-- Whether the coefficient has no more digits than the reader takes. -/
def short (t : Term) : Bool := decide (t.digits.length ≤ Number.wholeDigitLimit)

end Term

/-! ## Names and coefficients -/

/-- A word of a side: a name, or a coefficient and a name. -/
structure Plain (s : List Char) : Prop where
  ne_nil : s ≠ []
  plain : ∀ c ∈ s, isPlain c = true

variable {c : Char}

lemma isBlank_eq_false_of_isPlain (h : isPlain c = true) : isBlank c = false := by
  simp only [isPlain, Bool.or_eq_true, beq_iff_eq] at h
  rcases h with ((h | h) | rfl) | rfl
  · exact isBlank_eq_false_of_isLetter h
  · exact isBlank_eq_false_of_isDigit h
  · decide
  · decide

variable {s : List Char}

lemma Plain.nonblank (h : Plain s) : ∀ c ∈ s, isBlank c = false := by
  intro c hc
  exact isBlank_eq_false_of_isPlain (h.plain c hc)

lemma Plain.firm (h : Plain s) : Firm s := firm_of_forall h.ne_nil h.nonblank

lemma Plain.not_mem (h : Plain s) (hc : isPlain c = false) : c ∉ s := by
  intro hm
  rw [h.plain c hm] at hc
  cases hc

lemma isDigit_of_decimal (h : c.isDigit = true) : isDigit c = true := by
  rw [isDigit, (Number.digitFacts h).value]
  rfl

namespace Term

lemma name_ne_nil (t : Term) : t.name ≠ [] := by
  intro h
  have := t.start
  rw [h] at this
  cases this

lemma plain_text (t : Term) : Plain t.text := by
  constructor
  · intro h
    exact t.name_ne_nil (append_eq_nil_iff.1 h).2
  · intro c hc
    rcases mem_append.1 hc with hc | hc
    · simp [isPlain, isDigit_of_decimal (t.decimal c hc)]
    · exact t.plain c hc

lemma plain_name (t : Term) : Plain t.name := ⟨t.name_ne_nil, t.plain⟩

lemma coefficient_pos (t : Term) : 1 ≤ t.coefficient := by
  unfold coefficient
  split
  · exact Nat.le_refl 1
  · rename_i hd
    exact t.positive hd

lemma nameStart_text (t : Term) : nameStart t.text = t.digits.length := by
  have hd : t.digits.findIdx? isLetter = none := by
    rw [List.findIdx?_eq_none_iff]
    intro c hc
    exact (Number.digitFacts (t.decimal c hc)).letter
  have hnm : t.name.findIdx? isLetter = some 0 := by
    cases hn : t.name with
    | nil => exact absurd hn t.name_ne_nil
    | cons c rest =>
      have hc : isLetter c = true := by simpa [hn] using t.start
      rw [List.findIdx?_cons, if_pos hc]
  rw [nameStart, text, List.findIdx?_append, hd, hnm]
  simp

lemma readCoefficient_digits (t : Term) (hd : t.digits ≠ []) : readCoefficient t.digits =
      if t.short then .ok (.int t.coefficient) else .error .notNumeric := by
  have hp : t.digits.contains '.' = false := by
    rw [contains_eq_mem, decide_eq_false_iff_not]
    intro hm
    exact (Number.digitFacts (t.decimal _ hm)).point rfl
  rw [readCoefficient, hp, Number.readWhole_digits t.decimal hd, coefficient, if_neg hd]
  by_cases hl : t.digits.length ≤ Number.wholeDigitLimit
  · have hs : t.short = true := decide_eq_true hl
    rw [if_pos hl, if_pos hs]
    rfl
  · have hln : t.short = false := decide_eq_false hl
    rw [if_neg hl, hln]
    rfl

/-- A term is read as its coefficient and its name if the coefficient is not too long. -/
lemma readTerm_text (t : Term) :
    readTerm t.text = if t.short then .ok (.int t.coefficient, t.name) else .error .notNumeric := by
  unfold readTerm
  dsimp only
  rw [t.plain_text.firm.strip]
  by_cases hdg : t.digits = []
  · -- Without a coefficient the text starts with a letter.
    have hh : t.text.head?.any isDigit = false := by
      cases hn : t.name with
      | nil => exact absurd hn t.name_ne_nil
      | cons c rest =>
        have hc : isLetter c = true := by simpa [hn] using t.start
        simp [text, hdg, hn, isDigit_eq_false_of_isLetter hc]
    have hs : t.short = true := by simp [short, hdg]
    rw [hh, hs, coefficient, text, hdg]
    rfl
  · have hh : t.text.head?.any isDigit = true := by
      cases hd : t.digits with
      | nil => exact absurd hd hdg
      | cons c rest =>
        have hc : isDigit c = true := isDigit_of_decimal (t.decimal c (by simp [hd]))
        simp [text, hd, hc]
    have ht : t.text.take t.digits.length = t.digits := take_left
    have hdr : t.text.drop t.digits.length = t.name := drop_left
    rw [if_pos hh, t.nameStart_text, ht, hdr, t.readCoefficient_digits hdg, t.plain_name.firm.strip]
    cases t.short <;> rfl

end Term

lemma Term.isAnyBody_name (t : Term) : isAnyBody t.name = false := by
  unfold isAnyBody
  rw [beq_eq_false_iff_ne]
  intro h
  rcases eq_m_of_lower h with h | h
  · exact t.notBody.1 h
  · exact t.notBody.2 h

/-! ## Terms of a side -/

/-- Words with plus signs between them. Before each of the later words stand the blanks before its plus
sign and those after it. -/
def joinWords (first : List Char) : List (Blanks × Blanks × List Char) → List Char
  | [] => first
  | link :: rest => first ++ link.1.1 ++ '+' :: (link.2.1.1 ++ joinWords link.2.2 rest)

/-- A word without signs, or one with the plus sign of an ion behind it. -/
def Ionic (word : List Char) : Prop := ∃ name, Plain name ∧ (word = name ∨ word = name ++ ['+'])

lemma Plain.ionic (h : Plain s) : Ionic s := ⟨s, h, .inl rfl⟩

variable {word : List Char}

lemma Ionic.nonblank (h : Ionic word) : ∀ c ∈ word, isPlain c = true ∨ c = '+' := by
  obtain ⟨name, hn, rfl | rfl⟩ := h
  · exact fun c hc => .inl (hn.plain c hc)
  · intro c hc
    exact (mem_append.1 hc).imp (hn.plain c) mem_singleton.1

lemma Ionic.firm (h : Ionic word) : Firm word := by
  refine firm_of_forall ?_ fun c hc => ?_
  · obtain ⟨name, hn, rfl | rfl⟩ := h
    · exact hn.ne_nil
    · simp
  · obtain hp | rfl := h.nonblank c hc
    · exact isBlank_eq_false_of_isPlain hp
    · decide

variable {pieces : List (List Char)} {piece : List Char}

section JoinWords
variable {first : List Char} {links : List (Blanks × Blanks × List Char)}

lemma mem_joinWords (hf : Ionic first) (hl : ∀ link ∈ links, Ionic link.2.2)
    (hc : c ∈ joinWords first links) : isPlain c = true ∨ isBlank c = true ∨ c = '+' := by
  induction links generalizing first with
  | nil => exact (hf.nonblank c hc).imp_right .inr
  | cons link rest ih =>
    rw [forall_mem_cons] at hl
    simp only [joinWords, mem_append, mem_cons] at hc
    rcases hc with (hc | hc) | hc | hc | hc
    · exact (hf.nonblank c hc).imp_right .inr
    · exact .inr (.inl (link.1.2 c hc))
    · exact .inr (.inr hc)
    · exact .inr (.inl (link.2.1.2 c hc))
    · exact ih hl.1 hl.2 hc

lemma not_mem_joinWords (hf : Ionic first) (hl : ∀ link ∈ links, Ionic link.2.2)
    (hp : isPlain c = false) (hb : isBlank c = false) (hpl : c ≠ '+') : c ∉ joinWords first links := by
  intro hc
  rcases mem_joinWords hf hl hc with h | h | h
  · simp [h] at hp
  · simp [h] at hb
  · exact hpl h

lemma firm_joinWords (hf : Ionic first) (hl : ∀ link ∈ links, Ionic link.2.2) : Firm (joinWords first links) := by
  induction links generalizing first with
  | nil => exact hf.firm
  | cons link rest ih =>
    rw [forall_mem_cons] at hl
    have := hf.firm.append (ih hl.1 hl.2) (link.1.1 ++ '+' :: link.2.1.1)
    simpa [joinWords] using this

/-- The words as which a word is read that has blanks behind it: an ion falls apart if there are any. -/
def readAs (word : List Char) (behind : Blanks) : List (List Char) :=
  if word.getLast? = some '+' ∧ behind.1 ≠ [] then [word.dropLast, []] else [word]

/-- The words as which a side is read that has blanks behind it. -/
def readWords (first : List Char) : List (Blanks × Blanks × List Char) → Blanks → List (List Char)
  | [], behind => readAs first behind
  | link :: rest, behind => readAs first link.1 ++ readWords link.2.2 rest behind

lemma mergeEmpty_of_not_mem (h : [] ∉ pieces) : mergeEmpty pieces = pieces := by
  rw [mergeEmpty, dif_neg h]

variable {front : List (List Char)}

/-- The first empty piece gives its plus sign to the piece before it. -/
lemma mergeEmpty_step (hf : [] ∉ front) (hp : piece ≠ []) (rest : List (List Char)) :
    mergeEmpty (front ++ piece :: [] :: rest) = mergeEmpty (front ++ (piece ++ ['+']) :: rest) := by
  have hi : (front ++ piece :: [] :: rest).idxOf [] = front.length + 1 := by
    rw [idxOf_append_of_notMem hf, idxOf_cons_ne _ hp, idxOf_cons_self]
  rw [mergeEmpty]
  dsimp only
  rw [hi]
  simp [modify_eq_set_getElem?, eraseIdx_append]

/-- A piece without signs but for one at its end. -/
def Solid (piece : List Char) : Prop := ∃ w, w ≠ [] ∧ '+' ∉ w ∧ (piece = w ∨ piece = w ++ ['+'])

/-- Cut at its plus signs and put together again, a text gives the pieces between the signs. -/
lemma mergeEmpty_solid (hf : [] ∉ front) (h : ∀ piece ∈ pieces, Solid piece)
    (hs : pieces.flatMap ('+' :: ·) = '+' :: s) : mergeEmpty (front ++ splitAtChar '+' s) = front ++ pieces := by
  induction pieces generalizing front s with
  | nil => cases hs
  | cons piece pieces ih =>
    rw [forall_mem_cons] at h
    rw [flatMap_cons, cons_append, List.cons.injEq] at hs
    obtain ⟨⟨w, hw, hp, hwp⟩, h⟩ := h
    have hn : piece ≠ [] := by
      obtain rfl | rfl := hwp
      · exact hw
      · simp
    have hfr : [] ∉ front ++ [piece] := not_mem_append hf (by simpa using hn.symm)
    have hm : ∀ rest, mergeEmpty (front ++ (splitAtChar '+' piece ++ rest)) = mergeEmpty (front ++ [piece] ++ rest) := by
      intro rest
      obtain rfl | rfl := hwp
      · rw [splitAtChar_of_not_mem hp, append_assoc]
      · rw [splitAtChar_append, splitAtChar_of_not_mem hp, append_assoc front]
        exact mergeEmpty_step hf hw rest
    rw [← hs.2]
    cases pieces with
    | nil => simpa [mergeEmpty_of_not_mem hfr] using hm []
    | cons next pieces =>
      rw [flatMap_cons, cons_append, splitAtChar_append, hm]
      refine (ih hfr h ?_).trans (append_assoc ..)
      rw [flatMap_cons, cons_append]

/-- A word with blanks around it is made of the pieces as which it is read. -/
lemma exists_pieces_word (hw : Ionic word) (u v : Blanks) : ∃ pieces : List (List Char), (∀ p ∈ pieces, Solid p ∧ '(' ∉ p) ∧
    pieces.map strip = readAs word v ∧ pieces.flatMap ('+' :: ·) = '+' :: (u.1 ++ word ++ v.1) := by
  have hb : ∀ w : Blanks, '+' ∉ w.1 ∧ '(' ∉ w.1 := fun w =>
    ⟨fun hm => absurd (w.2 _ hm) (by decide), fun hm => absurd (w.2 _ hm) (by decide)⟩
  have hi := hw.firm
  obtain ⟨name, hn, hc⟩ := hw
  have hp : '+' ∉ name := hn.not_mem (by decide)
  have ho : '(' ∉ name := hn.not_mem (by decide)
  have hpc : Solid (u.1 ++ name) := ⟨_, by simp [hn.ne_nil], by simp [hb, hp], .inl rfl⟩
  obtain rfl | rfl := hc
  · refine ⟨[u.1 ++ word ++ v.1], ?_, ?_, by simp⟩
    · exact forall_mem_singleton.2 ⟨⟨_, by simp [hn.ne_nil], by simp [hb, hp], .inl rfl⟩, by simp [hb, ho]⟩
    · rw [map_singleton, strip_around hn.firm u.2 v.2, readAs, if_neg fun h => hp (mem_of_getLast? h.1)]
  by_cases hv : v.1 = []
  · -- no blanks behind the ion: its sign comes back
    refine ⟨[u.1 ++ (name ++ ['+'])], ?_, ?_, by simp [hv]⟩
    · exact forall_mem_singleton.2 ⟨⟨_, by simp [hn.ne_nil], by simp [hb, hp], .inr (append_assoc ..).symm⟩,
        by simp [hb, ho]⟩
    · have hs := strip_around hi u.2 (forall_mem_nil _)
      rw [append_nil] at hs
      rw [map_singleton, hs, readAs, if_neg fun h => h.2 hv]
  · refine ⟨[u.1 ++ name, v.1], ?_, ?_, by simp⟩
    · simpa [hb, ho] using And.intro hpc ⟨v.1, hv, (hb v).1, .inl rfl⟩
    · have hs := strip_around hn.firm u.2 (forall_mem_nil _)
      rw [append_nil] at hs
      have he : strip v.1 = [] := strip_append_blanks [] v.2
      simp [readAs, hs, he, hv]

lemma exists_pieces_joinWords (hf : Ionic first) (hl : ∀ link ∈ links, Ionic link.2.2) (u v : Blanks) :
    ∃ pieces : List (List Char), (∀ p ∈ pieces, Solid p ∧ '(' ∉ p) ∧ pieces.map strip = readWords first links v ∧
      pieces.flatMap ('+' :: ·) = '+' :: (u.1 ++ joinWords first links ++ v.1) := by
  induction links generalizing first u with
  | nil => exact exists_pieces_word hf u v
  | cons link rest ih =>
    rw [forall_mem_cons] at hl
    obtain ⟨pieces, hp, hs, ht⟩ := exists_pieces_word hf u link.1
    obtain ⟨more, hm, hw, ht'⟩ := ih hl.1 hl.2 link.2.1
    refine ⟨pieces ++ more, forall_mem_append.2 ⟨hp, hm⟩, by rw [map_append, hs, hw, readWords], ?_⟩
    simp [ht, ht', joinWords]

end JoinWords

lemma joinNext_of_no_cut (h : piece.getLast? ≠ some '(') : joinNext pieces piece = pieces := by
  have hc : ∀ next, isCut piece next = false := by
    intro next
    simp [isCut, h]
  unfold joinNext
  dsimp only
  split
  · rfl
  · rw [hc]
    rfl

lemma joinHalves_of_no_cut (h : ∀ p ∈ pieces, p.getLast? ≠ some '(') (i : ℕ) : joinHalves i pieces = pieces := by
  by_cases hi : i < pieces.length
  · rw [joinHalves, dif_pos hi, joinNext_of_no_cut (h _ (getElem_mem hi))]
    exact joinHalves_of_no_cut h (i + 1)
  · rw [joinHalves, dif_neg hi]
termination_by pieces.length - i

/-- Reads a word of a side and adds it to what was read before. -/
def addWord (side : Side) (word : List Char) : Except Fault Side := do
  let (nu, name) ← readTerm word
  return side.add nu name

lemma addWord_strip (side : Side) (word : List Char) : addWord side (strip word) = addWord side word := by
  unfold addWord readTerm
  rw [strip_strip]

lemma readTerms_joinWords {first : List Char} {links : List (Blanks × Blanks × List Char)} (hf : Ionic first)
    (hl : ∀ link ∈ links, Ionic link.2.2) (v : Blanks) :
    readTerms (joinWords first links ++ v.1) = (readWords first links v).foldlM addWord {} := by
  obtain ⟨pieces, hpc, hw, ht⟩ := exists_pieces_joinWords hf hl ⟨[], by simp⟩ v
  have hm := mergeEmpty_solid not_mem_nil (fun p hp => (hpc p hp).1) ht
  rw [nil_append, nil_append, nil_append] at hm
  -- no piece ends with a parenthesis, so no more pieces are put together
  have hc : ∀ p ∈ pieces, p.getLast? ≠ some '(' := fun p hp hls => (hpc p hp).2 (mem_of_getLast? hls)
  rw [readTerms, termTexts, hm, joinHalves_of_no_cut hc, ← hw, foldlM_map]
  simp only [addWord_strip]
  rfl

lemma readWords_plain {first : List Char} {links : List (Blanks × Blanks × List Char)}
    (hf : Plain first) (hl : ∀ link ∈ links, Plain link.2.2) (v : Blanks) :
    readWords first links v = first :: links.map (·.2.2) := by
  have ho : ∀ {word : List Char}, Plain word → ∀ v : Blanks, readAs word v = [word] := fun hw v =>
    if_neg fun h => hw.not_mem (by decide) (mem_of_getLast? h.1)
  induction links generalizing first with
  | nil => exact ho hf v
  | cons link rest ih =>
    rw [forall_mem_cons] at hl
    rw [readWords, ho hf, ih hl.1 hl.2]
    rfl

/-! ## Sums of coefficients -/

/-- The names of terms in the order in which they first occur. -/
def namesIn (ts : List Term) : List String := (ts.map Term.species).eraseDups

/-- The sum of the coefficients with which a name occurs. -/
def amountOf (ts : List Term) (name : String) : ℕ := ((ts.filter fun t => t.species == name).map Term.coefficient).sum

def sideOf (ts : List Term) : Side where
  names := namesIn ts
  nu := (namesIn ts).map fun name => .int (amountOf ts name)

lemma amountOf_append (ts : List Term) (t : Term) (name : String) :
    amountOf (ts ++ [t]) name = amountOf ts name + if t.species = name then t.coefficient else 0 := by
  unfold amountOf
  by_cases h : t.species = name
  · simp [h]
  · simp [h]

variable {ts : List Term} {name : String}

lemma mem_namesIn : name ∈ namesIn ts ↔ ∃ t ∈ ts, t.species = name := by
  rw [namesIn, mem_eraseDups, mem_map]

lemma eraseDups_concat (names : List String) (name : String) :
    (names ++ [name]).eraseDups = if name ∈ names then names.eraseDups else names.eraseDups ++ [name] := by
  rw [eraseDups_append, cons_removeAll, contains_eq_mem]
  by_cases h : name ∈ names
  · simp [h]
  · simp only [h]
    rfl

variable {t : Term}

lemma namesIn_append_of_mem (h : t.species ∈ namesIn ts) : namesIn (ts ++ [t]) = namesIn ts := by
  unfold namesIn at h ⊢
  rw [map_append, map_singleton, eraseDups_concat, if_pos (mem_eraseDups.1 h)]

lemma namesIn_append_of_not_mem (h : t.species ∉ namesIn ts) : namesIn (ts ++ [t]) = namesIn ts ++ [t.species] := by
  unfold namesIn at h ⊢
  rw [map_append, map_singleton, eraseDups_concat, if_neg (mt mem_eraseDups.2 h)]

lemma namesIn_nodup (ts : List Term) : (namesIn ts).Nodup := by
  induction ts using List.reverseRecOn with
  | nil => exact nodup_nil
  | append_singleton ts t ih =>
    by_cases h : t.species ∈ namesIn ts
    · rw [namesIn_append_of_mem h]
      exact ih
    · rw [namesIn_append_of_not_mem h]
      exact nodup_append_comm.1 (nodup_cons.2 ⟨h, ih⟩)

lemma amountOf_of_not_mem (h : name ∉ namesIn ts) : amountOf ts name = 0 := by
  have hn : (ts.filter fun t => t.species == name) = [] := by
    rw [filter_eq_nil_iff]
    intro t ht heq
    exact h (mem_namesIn.2 ⟨t, ht, beq_iff_eq.1 heq⟩)
  rw [amountOf, hn]
  rfl

lemma sideOf_add (ts : List Term) (t : Term) : (sideOf ts).add (.int t.coefficient) t.name = sideOf (ts ++ [t]) := by
  unfold Side.add
  rw [t.isAnyBody_name, if_neg Bool.false_ne_true]
  dsimp only
  cases hid : (sideOf ts).names.idxOf? (String.ofList t.name) with
  | none =>
    -- A new name comes last, and the amounts of the others stay.
    have hnw : t.species ∉ namesIn ts := List.idxOf?_eq_none_iff.1 hid
    have ho : ∀ name ∈ namesIn ts, amountOf (ts ++ [t]) name = amountOf ts name := by
      intro name hn
      rw [amountOf_append, if_neg (fun h => hnw (by rwa [h])), Nat.add_zero]
    dsimp only
    unfold sideOf
    rw [namesIn_append_of_not_mem hnw, map_append, map_singleton, amountOf_append,
      amountOf_of_not_mem hnw, if_pos rfl, Nat.zero_add]
    congr 2
    apply map_congr_left
    intro name hn
    rw [ho name hn]
  | some i =>
    -- Names are listed once, so only the amount at the place of the name changes.
    obtain ⟨hi, hn, _⟩ := List.idxOf?_eq_some_iff.1 hid
    have hm : t.species ∈ namesIn ts := by
      rw [← (show (namesIn ts)[i] = t.species from hn)]
      exact getElem_mem hi
    dsimp only
    unfold sideOf
    rw [namesIn_append_of_mem hm]
    congr 1
    apply ext_getElem
    · simp
    · intro j hj hj'
      rw [getElem_modify, getElem_map, getElem_map, amountOf_append]
      rw [length_map] at hj'
      by_cases hij : i = j
      · subst hij
        rw [if_pos rfl, if_pos (show t.species = (namesIn ts)[i] from hn.symm)]
        rfl
      · have hne : t.species ≠ (namesIn ts)[j] := by
          intro h
          exact hij ((namesIn_nodup ts).getElem_inj_iff.1 (hn.trans h))
        rw [if_neg hij, if_neg hne, Nat.add_zero]

def orderIn (ts : List Term) : ℕ := (ts.map Term.coefficient).sum

lemma sum_at (l : List String) (a : String) (n : ℕ) :
    (l.map fun b => if b = a then n else 0).sum = l.count a * n := by
  rw [sum_map_eq_nsmul_single a _ fun b hb _ => if_neg hb, if_pos rfl, smul_eq_mul]

lemma sum_amountOf (ts : List Term) : ((namesIn ts).map (amountOf ts)).sum = orderIn ts := by
  induction ts using List.reverseRecOn with
  | nil => rfl
  | append_singleton ts t ih =>
    have ho : orderIn (ts ++ [t]) = orderIn ts + t.coefficient := by
      simp [orderIn]
    have ha : amountOf (ts ++ [t]) = fun name => amountOf ts name + if name = t.species then t.coefficient else 0 := by
      funext name
      rw [amountOf_append]
      simp only [eq_comm]
    rw [ha, ho]
    by_cases h : t.species ∈ namesIn ts
    · rw [namesIn_append_of_mem h, sum_map_add, ih, sum_at, count_eq_one_of_mem (namesIn_nodup ts) h, Nat.one_mul]
    · rw [namesIn_append_of_not_mem h, map_append, sum_append, sum_map_add, ih, sum_at,
        count_eq_zero_of_not_mem h, map_singleton, amountOf_of_not_mem h, if_pos rfl]
      simp

lemma orderOf_sideOf (ts : List Term) : orderOf (sideOf ts).nu = .int (orderIn ts) := by
  have hs : ∀ (ns : List ℕ) (n : ℕ),
      (ns.map fun m : ℕ => Scalar.int m).foldl (· + ·) (.int n) = .int ((n + ns.sum : ℕ) : ℤ) := by
    intro ns
    induction ns with
    | nil => simp
    | cons m ns ih =>
      intro n
      rw [map_cons, foldl_cons, sum_cons, ← Nat.add_assoc, ← ih (n + m)]
      rfl
  have hnu : (sideOf ts).nu = ((namesIn ts).map (amountOf ts)).map fun m : ℕ => Scalar.int m := by
    rw [map_map]
    rfl
  rw [orderOf, hnu, ← sum_amountOf]
  have := hs ((namesIn ts).map (amountOf ts)) 0
  rw [Nat.zero_add] at this
  exact this

lemma addWord_text (ts : List Term) (t : Term) : addWord (sideOf ts) t.text =
    if t.short then .ok (sideOf (ts ++ [t])) else .error .notNumeric := by
  unfold addWord
  rw [t.readTerm_text]
  cases t.short with
  | false => rfl
  | true =>
    rw [← sideOf_add]
    rfl

/-- Terms are read one after the other, up to one whose coefficient is too long. -/
lemma addWords_texts (ts us : List Term) : (us.map Term.text).foldlM addWord (sideOf ts) =
    if us.all Term.short then .ok (sideOf (ts ++ us)) else .error .notNumeric := by
  induction us generalizing ts with
  | nil =>
    rw [append_nil]
    rfl
  | cons t us ih =>
    rw [map_cons, foldlM_cons, addWord_text, all_cons]
    cases t.short with
    | false => rfl
    | true =>
      rw [if_pos rfl, ok_bind, ih (ts ++ [t]), Bool.true_and, append_assoc]
      rfl

lemma plain_body : Plain ['M'] := by
  refine ⟨by simp, fun c hc => ?_⟩
  rw [mem_singleton.1 hc]
  decide

lemma addWord_body (side : Side) : addWord side ['M'] = .ok { side with thirdBody := true } := rfl

/-! ## Sides -/

/-- How a third body is written: not at all, as a term or in parentheses. -/
inductive Body where
  | absent
  | term
  | parenthesis
  deriving DecidableEq

/-- A side of an equation: terms with the blanks around the plus signs between them, and the blanks
before and after the plus sign of a third body. -/
structure WrittenSide where
  first : Term
  more : List (Blanks × Blanks × Term)
  gap : Blanks
  inner : Blanks

namespace WrittenSide
variable (w : WrittenSide) (body : Body)

def terms : List Term := w.first :: w.more.map (·.2.2)

def links : List (Blanks × Blanks × List Char) := (w.more.map fun link => (link.1, link.2.1, link.2.2.text)) ++
    if body = .term then [(w.gap, w.inner, ['M'])] else []

def words : List Char := joinWords w.first.text (w.links body)

def text : List Char := w.words body ++ if body = .parenthesis then w.gap.1 ++ ['(', '+', 'M', ')'] else []

/-- The blanks that stay behind if a third body in parentheses is taken away. -/
def left : Blanks := if body = .parenthesis then w.gap else ⟨[], by simp⟩

lemma plain_links : ∀ link ∈ w.links body, Plain link.2.2 := by
  intro link hl
  rcases mem_append.1 hl with hl | hl
  · obtain ⟨l, _, rfl⟩ := mem_map.1 hl
    exact l.2.2.plain_text
  · split at hl
    · rw [mem_singleton] at hl
      rw [hl]
      exact plain_body
    · cases hl

lemma firm_text : Firm (w.text body) := by
  have hw := firm_joinWords w.first.plain_text.ionic fun link hl => (w.plain_links body link hl).ionic
  unfold text
  split
  · rw [← append_assoc]
    exact hw.append ⟨by decide, by decide⟩ w.gap.1
  · rw [append_nil]
    exact hw

lemma not_mem_words (hp : isPlain c = false) (hb : isBlank c = false) (hpl : c ≠ '+') : c ∉ w.words body :=
  not_mem_joinWords w.first.plain_text.ionic (fun link hl => (w.plain_links body link hl).ionic) hp hb hpl

/-- Characters that are neither in names nor in third bodies do not stand in a side. -/
lemma not_mem_text (hp : isPlain c = false) (hb : isBlank c = false)
    (hbd : c ∉ ['(', '+', 'M', ')']) : c ∉ w.text body := by
  have hpl : c ≠ '+' := by
    rintro rfl
    exact hbd (by simp)
  unfold text
  rw [mem_append, not_or]
  refine ⟨w.not_mem_words body hp hb hpl, ?_⟩
  split
  · rw [mem_append, not_or]
    refine ⟨fun hm => ?_, hbd⟩
    rw [w.gap.2 c hm] at hb
    cases hb
  · exact not_mem_nil

lemma no_arrow : ∀ c ∈ ['<', '=', '>'], c ∉ w.text body := by
  intro c hc
  simp only [mem_cons, not_mem_nil, or_false] at hc
  rcases hc with rfl | rfl | rfl
  · exact w.not_mem_text body (by decide) (by decide) (by decide)
  · exact w.not_mem_text body (by decide) (by decide) (by decide)
  · exact w.not_mem_text body (by decide) (by decide) (by decide)

lemma readTerms_words : readTerms (w.words body ++ (w.left body).1) = if w.terms.all Term.short then
      .ok { sideOf w.terms with thirdBody := decide (body = .term) }
    else .error .notNumeric := by
  have hl : (w.links body).map (·.2.2) =
      (w.more.map (·.2.2)).map Term.text ++ if body = .term then [['M']] else [] := by
    unfold links
    rw [map_append, map_map, map_map]
    split
    · rfl
    · rfl
  unfold words
  rw [readTerms_joinWords w.first.plain_text.ionic fun link hln => (w.plain_links body link hln).ionic,
    readWords_plain w.first.plain_text (w.plain_links body), hl, ← cons_append, ← map_cons, foldlM_append]
  have ht := addWords_texts [] w.terms
  rw [nil_append] at ht
  have ht : (w.terms.map Term.text).foldlM addWord {} =
      if w.terms.all Term.short then .ok (sideOf w.terms) else .error .notNumeric := ht
  unfold terms at ht ⊢
  rw [ht]
  split
  · rw [ok_bind]
    split
    · rename_i hb
      simp [hb, addWord_body, pure_ok]
    · rename_i hb
      simp [hb, pure_ok, sideOf]
  · rfl

lemma findCollider_of_not_mem {rest : List Char} (h : '(' ∉ rest) (side : List Char) : findCollider side rest = .ok none := by
  have hf : firstParenthesis rest = none := by
    rw [firstParenthesis, find?_eq_none_of_not_mem mem_cons_self h]
  rw [findCollider, hf]

lemma find?_char (hc : c ∉ s) (t : List Char) : find? [c] (s ++ c :: t) = some s.length := by
  rw [find?_cons_append hc, find?_of_prefix (by simp), Option.map_some, Nat.zero_add]

lemma firstParenthesis_append {m : List Char} (ho : '(' ∉ s) (hs : ')' ∉ s) (hm : ')' ∉ m) (t : List Char) :
    firstParenthesis (s ++ '(' :: (m ++ ')' :: t)) = some ⟨s.length, m, s.length + (m.length + 2), true⟩ := by
  have hf : find? [')'] (s ++ '(' :: (m ++ ')' :: t)) = some (s.length + (m.length + 1)) := by
    simpa using find?_char (s := s ++ '(' :: m) (by simp [hs, hm]) t
  rw [firstParenthesis, find?_char ho]
  dsimp only
  rw [hf]
  simp [slice, take_append, drop_append, Nat.add_assoc]

/-- A third body in parentheses at the end of a side is found and cut off. -/
lemma findCollider_at_end (ho : '(' ∉ s) (hc : ')' ∉ s) :
    findCollider (s ++ ['(', '+', 'M', ')']) (s ++ ['(', '+', 'M', ')']) = .ok (some (['M'], s)) := by
  have hf := firstParenthesis_append (m := ['+', 'M']) ho hc (by decide) []
  simp only [cons_append, nil_append] at hf
  rw [findCollider, hf]
  simp [show strip ['+', 'M'] = ['+', 'M'] by decide, show colliderName ['+', 'M'] = ['M'] by decide, cutParenthesis,
    find?_of_prefix]

/-- A plus sign alone in parentheses belongs to a name. -/
lemma findCollider_pass (side : List Char) (ho : '(' ∉ s) (hc : ')' ∉ s) (t : List Char) :
    findCollider side (s ++ '(' :: '+' :: ')' :: t) = findCollider side t := by
  have hf := firstParenthesis_append (m := ['+']) ho hc (by decide) t
  rw [singleton_append] at hf
  rw [findCollider, hf]
  simp [show strip ['+'] = ['+'] by decide]

lemma takeCollider_text : takeCollider (w.text body) =
    .ok (w.words body ++ (w.left body).1, if body = .parenthesis then some none else none) := by
  unfold takeCollider text left
  have ho : '(' ∉ w.words body := w.not_mem_words body (by decide) (by decide) (by decide)
  have hc : ')' ∉ w.words body := w.not_mem_words body (by decide) (by decide) (by decide)
  by_cases hb : body = .parenthesis
  · rw [if_pos hb, if_pos hb, if_pos hb, ← append_assoc, findCollider_at_end]
    · rfl
    · rw [mem_append, not_or]
      exact ⟨ho, fun hm => absurd (w.gap.2 _ hm) (by decide)⟩
    · rw [mem_append, not_or]
      exact ⟨hc, fun hm => absurd (w.gap.2 _ hm) (by decide)⟩
  · rw [if_neg hb, if_neg hb, if_neg hb, append_nil, findCollider_of_not_mem ho]
    rfl

end WrittenSide

end Kinetics.Reading
