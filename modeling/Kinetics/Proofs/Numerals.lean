import Kinetics.Proofs.TextCuts
/-!
# Numerals that can be read

A row of decimal digits is read as the number it stands for, unless it has too many digits
(`readWhole_digits`). A text that is read as a real number holds only characters of numerals
(`Foreign.not_mem`).
-/

open List

namespace Kinetics.Number

open Text

/-! ## Whole numbers -/

/-- The number that a row of decimal digits stands for. -/
def decimal (digits : List Char) : ℕ := digits.foldl (fun n c => 10 * n + (c.toNat - 48)) 0

/-- What matters here about a decimal digit. -/
structure DigitFacts (c : Char) : Prop where
  margin : isMargin true c = false
  underscore : c ≠ '_'
  minus : c ≠ '-'
  plus : c ≠ '+'
  point : c ≠ '.'
  letter : isLetter c = false
  ascii : c.toNat < 128
  value : digitValue? c = some (c.toNat - 48)

lemma digitFacts {c : Char} (h : c.isDigit = true) : DigitFacts c := by
  have hc : c.toNat < 128 := by
    simp only [Char.isDigit, Bool.and_eq_true, decide_eq_true_eq] at h
    have := UInt32.le_iff_toNat_le.1 h.2
    have : c.toNat ≤ 57 := this
    omega
  have ha := of_ascii (P := fun c => !c.isDigit || (!isMargin true c && c != '_' && c != '-' &&
    c != '+' && c != '.' && !isLetter c)) (by decide +kernel) hc
  simp only [h, Bool.not_true, Bool.false_or, Bool.and_eq_true, Bool.not_eq_true', bne_iff_ne] at ha
  obtain ⟨⟨⟨⟨⟨hm, hu⟩, hmn⟩, hp⟩, hpn⟩, hl⟩ := ha
  refine ⟨hm, hu, hmn, hp, hpn, hl, hc, ?_⟩
  rw [digitValue?, if_pos hc, if_pos h]

section Digits
variable {digits : List Char} (h : ∀ c ∈ digits, c.isDigit = true)
include h

lemma trim_digits : trim digits = digits := by
  have ha : (digits.all fun c => decide (c.toNat < 128)) = true := by
    rw [all_eq_true]
    intro c hc
    simpa using (digitFacts (h c hc)).ascii
  have hk : ∀ s : List Char, (∀ c ∈ s, c.isDigit = true) → s.dropWhile (isMargin true) = s := by
    intro s hs
    cases s with
    | nil => rfl
    | cons c s =>
      have := (digitFacts (hs c mem_cons_self)).margin
      rw [dropWhile_cons_of_neg (by simp [this])]
  rw [trim, ha, hk digits h, hk digits.reverse fun c hc => h c (mem_reverse.1 hc), reverse_reverse]

lemma joinDigits_digits (after : Bool) : joinDigits after digits = some digits := by
  induction digits generalizing after with
  | nil => rfl
  | cons c digits ih =>
    rw [forall_mem_cons] at h
    have hc := (digitFacts h.1).underscore
    rw [joinDigits.eq_4 _ _ _ (fun _ _ h => absurd h hc) (fun h => absurd h hc), ih h.2]
    rfl

lemma takeSign_digits : takeSign digits = (false, digits) := by
  cases digits with
  | nil => rfl
  | cons c digits =>
    have hc := digitFacts (h c mem_cons_self)
    unfold takeSign
    split
    · rename_i heq
      exact absurd (List.cons.inj heq).1 hc.minus
    · rename_i heq
      exact absurd (List.cons.inj heq).1 hc.plus
    · rfl

lemma takeDigits_digits : takeDigits digits = ((decimal digits, digits.length), []) := by
  have hv : ∀ c ∈ digits, digitValue? c = some (c.toNat - 48) := by
    intro c hc
    exact (digitFacts (h c hc)).value
  have ht : digits.takeWhile (fun c => (digitValue? c).isSome) = digits := by
    apply takeWhile_eq_self_iff.2
    intro c hc
    rw [hv c hc]
    rfl
  have hf : digits.foldl (fun n c => 10 * n + (digitValue? c).getD 0) 0 = decimal digits := by
    apply foldl_ext
    intro n c hc
    rw [hv c hc]
    rfl
  rw [takeDigits, ht, hf, drop_length]

/-- A row of digits is read as the number it stands for, up to a length. -/
lemma readWhole_digits (hne : digits ≠ []) :
    readWhole digits = if digits.length ≤ wholeDigitLimit then .ok (decimal digits : Int)
      else .error .notNumeric := by
  have hln : digits.length ≠ 0 := by
    intro hz
    exact hne (eq_nil_of_length_eq_zero hz)
  unfold readWhole
  rw [trim_digits h, joinDigits_digits h]
  dsimp only [Option.bind_eq_bind, Option.bind_some]
  rw [takeSign_digits h, takeDigits_digits h]
  by_cases hl : digits.length ≤ wholeDigitLimit
  · have hno : ¬ wholeDigitLimit < digits.length := by omega
    simp [hln, hl, hno]
  · have hy : wholeDigitLimit < digits.length := by omega
    simp [hl, hy]

end Digits

/-! ## Real numbers -/

/-- A character that stands in no numeral, neither as a blank around it nor as a part of it. -/
structure Foreign (c : Char) : Prop where
  margin : ∀ ascii, isMargin ascii c = false
  value : digitValue? c = none
  marks : c ∉ ['_', '+', '-', '.', 'e', 'E']
  words : ∀ word ∈ ["inf", "infinity", "nan"], c ∉ word.toList
  lower : lower [c] = [c]

lemma foreign_of_mem {c : Char} (h : c ∈ ['!', '=', '>']) : Foreign c := by
  simp only [mem_cons, not_mem_nil, or_false] at h
  obtain rfl | rfl | rfl := h <;>
    exact ⟨fun ascii => by cases ascii <;> decide, by decide, by decide, by decide, by decide +kernel⟩

namespace Foreign
variable {c : Char} (hc : Foreign c)
include hc

variable {s : List Char}

lemma mem_trim (h : c ∈ s) : c ∈ trim s := by
  have hk : ∀ (ascii : Bool) (t : List Char), c ∈ t → c ∈ t.dropWhile (isMargin ascii) := by
    intro ascii t ht
    rw [← takeWhile_append_dropWhile (p := isMargin ascii) (l := t), mem_append] at ht
    rcases ht with ht | ht
    · have := mem_takeWhile_imp ht
      rw [hc.margin ascii] at this
      cases this
    · exact ht
  apply mem_reverse.2
  apply hk
  apply mem_reverse.2
  exact hk _ _ h

lemma mem_joinDigits {after : Bool} {s t : List Char} (h : c ∈ s) (ht : joinDigits after s = some t) : c ∈ t := by
  have hu : c ≠ '_' := by
    rintro rfl
    exact hc.marks (by simp)
  fun_induction joinDigits after s generalizing t with
  | case1 => cases h
  | case2 after a rest hd ih =>
    rw [mem_cons] at h
    rcases h with h | h
    · exact absurd h hu
    · exact ih h ht
  | case3 => cases ht
  | case4 => cases ht
  | case5 after a rest _ _ ih =>
    obtain ⟨t', ht', rfl⟩ := Option.map_eq_some_iff.1 ht
    rw [mem_cons] at h ⊢
    rcases h with h | h
    · exact .inl h
    · exact .inr (ih h ht')

lemma mem_takeSign (h : c ∈ s) : c ∈ (takeSign s).2 := by
  unfold takeSign
  split
  · rw [mem_cons] at h
    rcases h with rfl | h
    · exact absurd hc.marks (by decide)
    · exact h
  · rw [mem_cons] at h
    rcases h with rfl | h
    · exact absurd hc.marks (by decide)
    · exact h
  · exact h

lemma mem_takeDigits (h : c ∈ s) : c ∈ (takeDigits s).2 := by
  have hs := takeWhile_append_dropWhile (p := fun c => (digitValue? c).isSome) (l := s)
  have hr : (takeDigits s).2 = s.dropWhile fun c => (digitValue? c).isSome := (congrArg _ hs.symm).trans drop_left
  rw [← hs, mem_append] at h
  rw [hr]
  rcases h with h | h
  · have := mem_takeWhile_imp h
    rw [hc.value] at this
    cases this
  · exact h

lemma not_mem_takeExponent {e : Int} (h : takeExponent s = some e) : c ∉ s := by
  intro hmm
  unfold takeExponent at h
  split at h
  · cases hmm
  · rename_i a rest
    split at h
    · rename_i hm
      have hne : c ≠ a := by
        rintro rfl
        simp only [Bool.or_eq_true, decide_eq_true_eq] at hm
        rcases hm with rfl | rfl
        · exact absurd hc.marks (by decide)
        · exact absurd hc.marks (by decide)
      have hr : c ∈ rest := by
        rw [mem_cons] at hmm
        exact hmm.resolve_left hne
      -- What follows the digits of the exponent still holds the character.
      have hl := hc.mem_takeDigits (hc.mem_takeSign hr)
      have hn : (takeDigits (takeSign rest).2).2.isEmpty = false := by
        simpa using ne_nil_of_mem hl
      dsimp only at h
      rw [hn, if_pos (by simp)] at h
      cases h
    · cases h

variable {x : Float}

lemma not_mem_magnitude (h : magnitude s = some x) : c ∉ s := by
  intro hm
  have hw : ∀ word ∈ ["inf", "infinity", "nan"], ¬ (String.ofList (Text.lower s) == word) = true := by
    intro word hw heq
    have ht : Text.lower s = word.toList := by
      rw [← beq_iff_eq.1 heq, String.toList_ofList]
    apply hc.words word hw
    rw [← ht]
    refine mem_flatMap.2 ⟨c, hm, ?_⟩
    have hl := hc.lower
    rw [Text.lower, flatMap_singleton] at hl
    rw [hl]
    exact mem_singleton_self c
  have hd := hc.mem_takeDigits hm
  unfold magnitude at h
  simp only [hw "inf" (by simp), hw "infinity" (by simp), hw "nan" (by simp), Bool.or_self,
    Bool.false_eq_true, if_false] at h
  split at h
  · rename_i rest hr
    rw [hr, mem_cons] at hd
    rcases hd with rfl | hd
    · exact absurd hc.marks (by decide)
    · split at h
      · cases h
      · obtain ⟨e, he, _⟩ := Option.bind_eq_some_iff.1 h
        exact hc.not_mem_takeExponent he (hc.mem_takeDigits hd)
  · split at h
    · cases h
    · obtain ⟨e, he, _⟩ := Option.bind_eq_some_iff.1 h
      exact hc.not_mem_takeExponent he hd

lemma not_mem (h : readReal s = .ok x) : c ∉ s := by
  intro hm
  unfold readReal at h
  dsimp only at h
  split at h
  · rename_i hx
    obtain ⟨t, ht, hx⟩ := Option.bind_eq_some_iff.1 hx
    obtain ⟨y, hy, _⟩ := Option.bind_eq_some_iff.1 hx
    exact hc.not_mem_magnitude hy (hc.mem_takeSign (hc.mem_joinDigits (hc.mem_trim hm) ht))
  · cases h

end Foreign

end Kinetics.Number
