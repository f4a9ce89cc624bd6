import Kinetics.Number.Numeral
import Kinetics.Text.Letter
import Mathlib
/-!
# Texts put together and cut again

What the ways of cutting a text give on a text that was put together from parts: words with blanks
between and around them, and parts with a separator between them. Each lemma asks only for what
keeps the parts apart, such as that a separator does not stand in a part.
-/

open List

namespace Kinetics.Text

/-! ## Classes of characters -/

def inRuns (runs : List (ℕ × ℕ)) (n : ℕ) : Bool := runs.any fun r => decide (r.1 ≤ n) && decide (n ≤ r.2)

/-- Whether runs of code points have nothing in common. -/
def apart (runs others : List (ℕ × ℕ)) : Bool := runs.all fun r => others.all fun q => r.2.blt q.1 || q.2.blt r.1

lemma inRuns_eq_false_of_apart (runs others : List (ℕ × ℕ)) (h : apart runs others = true) {n : ℕ}
    (hn : inRuns runs n = true) : inRuns others n = false := by
  obtain ⟨r, hr, hrn⟩ := any_eq_true.1 hn
  unfold inRuns
  rw [any_eq_false]
  intro q hq hqn
  have hrq := all_eq_true.1 (all_eq_true.1 h r hr) q hq
  simp only [Bool.or_eq_true, Bool.and_eq_true, decide_eq_true_eq, Nat.blt_eq] at hrn hqn hrq
  omega

variable {c : Char}

/-- What holds of the first 128 characters holds of every character with a small code point. -/
lemma of_ascii {P : Char → Bool} (h : ((List.range 128).all fun n => P (Char.ofNat n)) = true)
    (hc : c.toNat < 128) : P c = true := by
  have := all_eq_true.1 h c.toNat (mem_range.2 hc)
  rwa [Char.ofNat_toNat] at this

def allLetterRuns : List (ℕ × ℕ) := (65, 90) :: (97, 122) :: letterRuns

def allDigitRuns : List (ℕ × ℕ) := decimalZeros.map (fun z => (z, z + 9)) ++ ornamentalRuns

lemma isLetter_inRuns (h : isLetter c = true) : inRuns allLetterRuns c.toNat = true := by
  unfold isLetter at h
  unfold allLetterRuns inRuns
  rw [any_cons, any_cons, Bool.or_eq_true, Bool.or_eq_true]
  split at h
  · have ha : (65 ≤ c.toNat ∧ c.toNat ≤ 90) ∨ 97 ≤ c.toNat ∧ c.toNat ≤ 122 := by
      simpa [Char.isAlpha, Char.isUpper, Char.isLower, UInt32.le_iff_toNat_le] using h
    rcases ha with hu | hl
    · exact .inl (by simpa using hu)
    · exact .inr (.inl (by simpa using hl))
  · exact .inr (.inr h)

lemma isDigit_inRuns (h : isDigit c = true) : inRuns allDigitRuns c.toNat = true := by
  unfold inRuns allDigitRuns
  rw [any_append, Bool.or_eq_true]
  rcases Bool.or_eq_true_iff.1 h with hv | ho
  · left
    rw [any_map]
    unfold digitValue? at hv
    split at hv
    · have hd : c.isDigit = true := by
        by_contra hno
        simp [hno] at hv
      have ha : 48 ≤ c.toNat ∧ c.toNat ≤ 57 := by
        simpa [Char.isDigit, UInt32.le_iff_toNat_le] using hd
      refine any_eq_true.2 ⟨48, by decide, ?_⟩
      simpa using ha
    · rw [Option.isSome_map, List.find?_isSome] at hv
      obtain ⟨z, hz, hzc⟩ := hv
      refine any_eq_true.2 ⟨z, hz, ?_⟩
      simp only [Bool.and_eq_true, decide_eq_true_eq, Function.comp_apply] at hzc ⊢
      omega
  · exact .inr ho

lemma classes_apart : apart allLetterRuns blankRuns = true ∧ apart allDigitRuns blankRuns = true ∧
    apart allLetterRuns allDigitRuns = true := by
  decide +kernel

lemma isBlank_eq_false_of_isLetter (h : isLetter c = true) : isBlank c = false :=
  inRuns_eq_false_of_apart allLetterRuns blankRuns classes_apart.1 (isLetter_inRuns h)

lemma isBlank_eq_false_of_isDigit (h : isDigit c = true) : isBlank c = false :=
  inRuns_eq_false_of_apart allDigitRuns blankRuns classes_apart.2.1 (isDigit_inRuns h)

lemma isDigit_eq_false_of_isLetter (h : isLetter c = true) : isDigit c = false := by
  by_contra hd
  have hr := inRuns_eq_false_of_apart allLetterRuns allDigitRuns classes_apart.2.2 (isLetter_inRuns h)
  rw [isDigit_inRuns (by simpa using hd)] at hr
  cases hr

/-! ## Lower case -/

lemma lower_cons (c : Char) (s : List Char) : lower (c :: s) = lower [c] ++ lower s := by
  simp [lower]

lemma lower_singleton_of_not_ascii (hc : ¬ c.toNat < 128) :
    (∃ ns ∈ lowerSeveral, lower [c] = ns.2.map Char.ofNat) ∨ (∃ r ∈ lowerRuns, r.1 ≤ c.toNat ∧ c.toNat ≤ r.2.1 ∧
        lower [c] = [Char.ofNat (r.2.2.2 + (c.toNat - r.1))]) ∨ lower [c] = [c] := by
  have hlw : lower [c] = mapCase lowerRuns lowerSeveral c := by
    simp [lower, hc]
  rw [hlw]
  unfold mapCase
  dsimp only
  split
  · rename_i ns hns
    left
    obtain ⟨l₁, l₂, hl, _⟩ := lookup_eq_some_iff.1 hns
    exact ⟨(c.toNat, ns), by simp [hl], rfl⟩
  · split
    · rename_i first last step image hr
      right; left
      have hm := mem_of_find?_eq_some hr
      have hrn := List.find?_some hr
      simp only [Bool.and_eq_true, decide_eq_true_eq] at hrn
      exact ⟨_, hm, hrn.1.1, hrn.1.2, rfl⟩
    · exact .inr (.inr rfl)

lemma lower_singleton_ne_nil (c : Char) : lower [c] ≠ [] := by
  by_cases hc : c.toNat < 128
  · simp [lower, hc]
  · rcases lower_singleton_of_not_ascii hc with ⟨ns, hns, h⟩ | ⟨r, hr, hf, hl, h⟩ | h
    · have ha : ∀ ns ∈ lowerSeveral, ns.2.map Char.ofNat ≠ [] := by decide
      rw [h]
      exact ha ns hns
    · simp [h]
    · simp [h]

lemma eq_m_of_lower_singleton (h : lower [c] = ['m']) : c = 'm' ∨ c = 'M' := by
  by_cases hc : c.toNat < 128
  · have ha := of_ascii (P := fun c => c.toLower != 'm' || c == 'm' || c == 'M') (by decide +kernel) hc
    have hm : c.toLower = 'm' := by simpa [lower, hc] using h
    simpa [hm] using ha
  · rcases lower_singleton_of_not_ascii hc with ⟨ns, hns, h'⟩ | ⟨r, hr, hf, hl, h'⟩ | h'
    · have ha : ∀ ns ∈ lowerSeveral, ns.2.map Char.ofNat ≠ ['m'] := by decide
      exact absurd (h'.symm.trans h) (ha ns hns)
    · have ha : ∀ r ∈ lowerRuns, 109 < r.2.2.2 ∨ r.2.2.2 + (r.2.1 - r.1) < 109 := by decide +kernel
      have hm : Char.ofNat (r.2.2.2 + (c.toNat - r.1)) = 'm' := by simpa using h'.symm.trans h
      have hcd := congrArg Char.toNat hm
      rw [Char.toNat_ofNat] at hcd
      split at hcd
      · have hcd : r.2.2.2 + (c.toNat - r.1) = 109 := hcd
        have := ha r hr
        omega
      · cases hcd
    · rw [h'] at h
      left
      simpa using h

lemma eq_m_of_lower {name : List Char} (h : lower name = ['m']) : name = ['m'] ∨ name = ['M'] := by
  cases name with
  | nil => cases h
  | cons c rest =>
    rw [lower_cons] at h
    have hr : rest = [] := by
      cases rest with
      | nil => rfl
      | cons d rest =>
        have hl := congrArg List.length h
        have hc := length_pos_iff.2 (lower_singleton_ne_nil c)
        have hd := length_pos_iff.2 (lower_singleton_ne_nil d)
        rw [lower_cons d, length_append, length_append, length_singleton] at hl
        omega
    subst hr
    rw [show lower [] = [] from rfl, append_nil] at h
    rcases eq_m_of_lower_singleton h with rfl | rfl
    · exact .inl rfl
    · exact .inr rfl

/-! ## Blanks around a text -/

/-- A text that neither starts nor ends with a blank. -/
structure Firm (s : List Char) : Prop where
  start : s.head?.any (!isBlank ·) = true
  finish : s.getLast?.any (!isBlank ·) = true

variable {s : List Char}

lemma Firm.ne_nil (h : Firm s) : s ≠ [] := by
  rintro rfl
  cases h.start

lemma firm_of_forall (hne : s ≠ []) (h : ∀ c ∈ s, isBlank c = false) : Firm s := by
  constructor
  · rw [List.head?_eq_some_head hne]
    simp [h _ (head_mem hne)]
  · rw [List.getLast?_eq_some_getLast hne]
    simp [h _ (getLast_mem hne)]

lemma Firm.append {s t : List Char} (hs : Firm s) (ht : Firm t) (u : List Char) : Firm (s ++ u ++ t) := by
  constructor
  · rw [append_assoc, List.head?_append_of_ne_nil _ hs.ne_nil]
    exact hs.start
  · rw [List.getLast?_append_of_ne_nil _ ht.ne_nil]
    exact ht.finish

variable {u : List Char}

lemma stripLeft_blanks_append (hu : ∀ c ∈ u, isBlank c = true) (s : List Char) : stripLeft (u ++ s) = stripLeft s :=
  dropWhile_append_of_pos hu

lemma Firm.stripLeft (h : Firm s) (t : List Char) : stripLeft (s ++ t) = s ++ t := by
  cases s with
  | nil => exact absurd rfl h.ne_nil
  | cons c s =>
    have hc : isBlank c = false := by simpa using h.start
    rw [Text.stripLeft, cons_append, dropWhile_cons_of_neg (by simp [hc])]

lemma Firm.reverse (h : Firm s) : Firm s.reverse := by
  constructor
  · rw [List.head?_reverse]
    exact h.finish
  · rw [List.getLast?_reverse]
    exact h.start

/-- Stripping takes away just the blanks that were put around a text. -/
lemma strip_around {s u v : List Char} (hs : Firm s) (hu : ∀ c ∈ u, isBlank c = true)
    (hv : ∀ c ∈ v, isBlank c = true) : strip (u ++ s ++ v) = s := by
  have hv' : ∀ c ∈ v.reverse, isBlank c = true := fun c hc => hv c (mem_reverse.1 hc)
  have hr := hs.reverse.stripLeft []
  rw [append_nil] at hr
  rw [strip, append_assoc, stripLeft_blanks_append hu, hs.stripLeft, reverse_append,
    stripLeft_blanks_append hv', hr, reverse_reverse]

lemma Firm.strip (hs : Firm s) : strip s = s := by
  have := strip_around (u := []) (v := []) hs (by simp) (by simp)
  rwa [nil_append, append_nil] at this

lemma strip_eq_nil_or_firm (s : List Char) : strip s = [] ∨ Firm (strip s) := by
  have hs : strip s = (stripLeft s).rdropWhile isBlank := rfl
  by_cases hne : strip s = []
  · exact .inl hne
  · right
    rw [hs] at hne ⊢
    constructor
    · obtain ⟨t, ht⟩ := rdropWhile_prefix isBlank (stripLeft s)
      have hl : stripLeft s ≠ [] := by
        rw [← ht]
        exact append_ne_nil_of_left_ne_nil hne t
      have hh : isBlank ((stripLeft s).head hl) = false := head_dropWhile_not isBlank hl
      rw [← List.head?_append_of_ne_nil _ hne, ht, List.head?_eq_some_head hl]
      simp [hh]
    · rw [List.getLast?_eq_some_getLast hne]
      simpa using rdropWhile_last_not isBlank (stripLeft s) hne

@[simp] lemma strip_strip (s : List Char) : strip (strip s) = strip s := by
  rcases strip_eq_nil_or_firm s with h | h
  · rw [h]
    rfl
  · exact h.strip

variable {p : Char → Bool}

lemma dropWhile_append_cons (hc : p c = false) (s t : List Char) :
    (s ++ c :: t).dropWhile p = s.dropWhile p ++ c :: t := by
  rw [dropWhile_append, dropWhile_cons_of_neg (by simp [hc])]
  split
  · next he => rw [List.isEmpty_iff.1 he, nil_append]
  · rfl

lemma of_mem_head?_dropWhile (h : c ∈ (s.dropWhile p).head?) : p c = false := by
  have hne : s.dropWhile p ≠ [] := fun hn => by simp [hn] at h
  rw [List.head?_eq_some_head hne] at h
  cases h
  exact head_dropWhile_not p hne

lemma of_mem_getLast?_rdropWhile (h : c ∈ (s.rdropWhile p).getLast?) : p c = false :=
  of_mem_head?_dropWhile (by rwa [List.rdropWhile, List.getLast?_reverse] at h)

lemma rdropWhile_append_rtakeWhile (p : Char → Bool) (s : List Char) : s.rdropWhile p ++ s.rtakeWhile p = s := by
  rw [List.rdropWhile, List.rtakeWhile, ← reverse_append, takeWhile_append_dropWhile, reverse_reverse]

lemma exists_strip (s : List Char) : ∃ u v, s = u ++ (strip s ++ v) ∧ (∀ c ∈ u, isBlank c = true) ∧
    ∀ c ∈ v, isBlank c = true := by
  have hr : strip s ++ (stripLeft s).rtakeWhile isBlank = stripLeft s := rdropWhile_append_rtakeWhile isBlank _
  refine ⟨s.takeWhile isBlank, (stripLeft s).rtakeWhile isBlank, ?_, fun c => mem_takeWhile_imp,
    fun c => mem_rtakeWhile_imp⟩
  rw [hr]
  exact takeWhile_append_dropWhile.symm

lemma strip_append_blanks (s : List Char) (hu : ∀ c ∈ u, isBlank c = true) : strip (s ++ u) = strip s := by
  have hl : stripLeft (s ++ u) = if (stripLeft s).isEmpty then stripLeft u else stripLeft s ++ u := dropWhile_append
  have hb : stripLeft u = [] := dropWhile_eq_nil_iff.2 hu
  rw [strip, strip, hl]
  split
  · next he => rw [hb, List.isEmpty_iff.1 he]
  · rw [reverse_append, stripLeft_blanks_append fun c hc => hu c (mem_reverse.1 hc)]

lemma strip_append_cons (hc : isBlank c = false) (s t : List Char) :
    ∃ u t', (∀ a ∈ u, isBlank a = true) ∧ strip (s ++ c :: t) = strip s ++ (u ++ c :: t') := by
  refine ⟨(stripLeft s).rtakeWhile isBlank, (t.reverse.dropWhile isBlank).reverse, fun a => mem_rtakeWhile_imp, ?_⟩
  have hr : ((stripLeft s ++ c :: t).reverse).dropWhile isBlank =
      t.reverse.dropWhile isBlank ++ c :: (stripLeft s).reverse := by
    rw [reverse_append, reverse_cons, append_assoc, singleton_append, dropWhile_append_cons hc]
  have hk : strip s ++ (stripLeft s).rtakeWhile isBlank = stripLeft s := rdropWhile_append_rtakeWhile isBlank _
  rw [← append_assoc, hk, strip, stripLeft, stripLeft, dropWhile_append_cons hc]
  exact (congrArg List.reverse hr).trans (by simp)

/-! ## Words -/

lemma fieldsFrom_append_blank (word s t : List Char) (hc : isBlank c = true) :
    fieldsFrom word (s ++ c :: t) = fieldsFrom word s ++ fields t := by
  induction s generalizing word with
  | nil =>
    rw [nil_append, fieldsFrom.eq_2, if_pos hc, fieldsFrom.eq_1]
    split
    · rfl
    · rfl
  | cons a s ih =>
    rw [cons_append, fieldsFrom, fieldsFrom]
    split
    · split
      · exact ih []
      · rw [ih [], cons_append]
    · exact ih _

lemma fields_append_blank (s t : List Char) (hc : isBlank c = true) : fields (s ++ c :: t) = fields s ++ fields t :=
  fieldsFrom_append_blank [] s t hc

lemma fields_blanks_append (hu : ∀ c ∈ u, isBlank c = true) (t : List Char) : fields (u ++ t) = fields t := by
  induction u with
  | nil => rfl
  | cons c u ih =>
    rw [forall_mem_cons] at hu
    have := fields_append_blank [] (u ++ t) hu.1
    rw [ih hu.2] at this
    exact this

lemma fields_append_gap (hne : u ≠ []) (hu : ∀ c ∈ u, isBlank c = true)
    (s t : List Char) : fields (s ++ u ++ t) = fields s ++ fields t := by
  cases u with
  | nil => exact absurd rfl hne
  | cons c u =>
    rw [forall_mem_cons] at hu
    rw [append_assoc, cons_append, fields_append_blank s _ hu.1, fields_blanks_append hu.2]

lemma fieldsFrom_word (hs : ∀ c ∈ s, isBlank c = false) (word : List Char)
    (hne : word ++ s ≠ []) : fieldsFrom word s = [word.reverse ++ s] := by
  induction s generalizing word with
  | nil =>
    have hw : word.isEmpty = false := by
      simpa using hne
    rw [fieldsFrom, hw, append_nil]
    rfl
  | cons c s ih =>
    rw [forall_mem_cons] at hs
    rw [fieldsFrom, if_neg (by simp [hs.1]), ih hs.2 (c :: word) (by simp)]
    simp

lemma fields_word (hne : s ≠ []) (hs : ∀ c ∈ s, isBlank c = false) : fields s = [s] :=
  fieldsFrom_word hs [] (by simpa using hne)

lemma fields_around_word {s w t : List Char} (hne : w ≠ []) (hw : ∀ c ∈ w, isBlank c = false)
    (hs : ∀ c ∈ s.getLast?, isBlank c = true) (ht : ∀ c ∈ t.head?, isBlank c = true) :
    fields (s ++ (w ++ t)) = fields s ++ w :: fields t := by
  have hr : fields (w ++ t) = w :: fields t := by
    cases t with
    | nil => rw [append_nil, fields_word hne hw]; rfl
    | cons c t =>
      have hc := ht c rfl
      rw [fields_append_blank w t hc, fields_word hne hw, singleton_append,
        ← fields_blanks_append (forall_mem_singleton.2 hc) t, singleton_append]
  obtain rfl | ⟨s, c, rfl⟩ := eq_nil_or_concat' s
  · exact hr
  · have hc := hs c List.getLast?_concat
    rw [append_assoc, singleton_append, fields_append_blank _ _ hc, fields_append_blank _ _ hc, hr]
    simp [fields, fieldsFrom]

lemma fields_blanks (h : ∀ c ∈ s, isBlank c = true) : fields s = [] := by
  have := fields_blanks_append h []
  rwa [append_nil] at this

lemma fields_strip (s : List Char) : fields (strip s) = fields s := by
  obtain ⟨u, v, hs, hu, hv⟩ := exists_strip s
  conv_rhs => rw [hs, fields_blanks_append hu]
  cases v with
  | nil => rw [append_nil]
  | cons c v => rw [fields_append_blank _ _ (hv c mem_cons_self), fields_blanks fun c hc =>
      hv c (mem_cons_of_mem _ hc), append_nil]

lemma exists_first_field {s w : List Char} {back : List (List Char)} (h : fields s = w :: back) :
    ∃ u t, s = u ++ (w ++ t) ∧ (∀ c ∈ u, isBlank c = true) ∧ fields t = back ∧ (∀ c ∈ t.head?, isBlank c = true) ∧
      w ≠ [] ∧ ∀ c ∈ w, isBlank c = false := by
  have hl := takeWhile_append_dropWhile (p := isBlank) (l := s)
  have hr := takeWhile_append_dropWhile (p := (!isBlank ·)) (l := stripLeft s)
  have hb : ∀ c ∈ s.takeWhile isBlank, isBlank c = true := fun c => mem_takeWhile_imp
  have hw : ∀ c ∈ (stripLeft s).takeWhile (!isBlank ·), isBlank c = false := fun c hc => by
    simpa using mem_takeWhile_imp hc
  have hh : ∀ c ∈ ((stripLeft s).dropWhile (!isBlank ·)).head?, isBlank c = true := fun c hc => by
    simpa using of_mem_head?_dropWhile hc
  have hne : (stripLeft s).takeWhile (!isBlank ·) ≠ [] := by
    intro hn
    cases hs : stripLeft s with
    | nil =>
      rw [fields_blanks (dropWhile_eq_nil_iff.1 hs)] at h
      cases h
    | cons c rest =>
      have hc : isBlank c = false := of_mem_head?_dropWhile (by rw [← stripLeft, hs]; rfl)
      simp [hs, hc] at hn
  have hf := fields_around_word hne hw (fun c hc => hb c (mem_of_mem_getLast? hc)) hh
  have hs : s.takeWhile isBlank ++ ((stripLeft s).takeWhile (!isBlank ·) ++ (stripLeft s).dropWhile (!isBlank ·)) = s := by
    rw [hr]
    exact hl
  rw [hs, fields_blanks hb, h] at hf
  cases hf
  exact ⟨_, _, hs.symm, hb, rfl, hh, hne, hw⟩

lemma exists_field {s w : List Char} {front back : List (List Char)} (h : fields s = front ++ w :: back) :
    ∃ a b, s = a ++ (w ++ b) ∧ fields a = front ∧ fields b = back ∧ (∀ c ∈ a.getLast?, isBlank c = true) ∧
      (∀ c ∈ b.head?, isBlank c = true) ∧ w ≠ [] ∧ ∀ c ∈ w, isBlank c = false := by
  induction front generalizing s with
  | nil =>
    obtain ⟨u, t, hs, hu, ht, hh, hw⟩ := exists_first_field h
    exact ⟨u, t, hs, fields_blanks hu, ht, fun c hc => hu c (mem_of_mem_getLast? hc), hh, hw⟩
  | cons f front ih =>
    obtain ⟨u, t, rfl, hu, ht, hh, hf⟩ := exists_first_field h
    obtain ⟨a, b, rfl, ha, hb, hl, hh', hne, hw⟩ := ih ht
    -- the word stands behind a blank, so there is a text between it and the first word
    have hn : a ≠ [] := by
      rintro rfl
      have := hh (w.head hne) (by simp [List.head?_eq_some_head hne])
      rw [hw _ (head_mem hne)] at this
      cases this
    have hfs : ∀ c ∈ a.head?, isBlank c = true := fun c hc => hh c (by rwa [List.head?_append_of_ne_nil _ hn])
    refine ⟨u ++ (f ++ a), b, by simp, ?_, hb, ?_, hh', hne, hw⟩
    · rw [fields_blanks_append hu, ← ha]
      exact fields_around_word hf.1 hf.2 (by simp) hfs (s := [])
    · rwa [List.getLast?_append_of_ne_nil _ (by simp [hn]), List.getLast?_append_of_ne_nil _ hn]

lemma of_mem_fields {s w : List Char} (h : w ∈ fields s) : w ≠ [] ∧ ∀ c ∈ w, isBlank c = false := by
  obtain ⟨front, back, hs⟩ := append_of_mem h
  obtain ⟨-, -, -, -, -, -, -, hw⟩ := exists_field hs
  exact hw

lemma isInfix_of_mem_fieldsFrom {w word s : List Char} (h : w ∈ fieldsFrom word s) : w <:+: word.reverse ++ s := by
  induction s generalizing word with
  | nil =>
    rw [fieldsFrom] at h
    split at h
    · cases h
    · rw [mem_singleton.1 h, append_nil]
  | cons c s ih =>
    rw [fieldsFrom] at h
    have hr : w ∈ fieldsFrom [] s → w <:+: word.reverse ++ c :: s := fun h =>
      (ih h).trans ⟨word.reverse ++ [c], [], by simp⟩
    split at h
    · split at h
      · exact hr h
      · obtain rfl | h := mem_cons.1 h
        · exact (prefix_append _ _).isInfix
        · exact hr h
    · simpa using ih h

lemma exists_field_of_isInfix {part s : List Char} (hne : part ≠ []) (hp : ∀ c ∈ part, isBlank c = false)
    (h : part <:+: s) : ∃ w ∈ fields s, part <:+: w := by
  obtain ⟨a, b, rfl⟩ := h
  have hb := takeWhile_append_dropWhile (p := (!isBlank ·)) (l := b)
  have ha := rdropWhile_append_rtakeWhile (!isBlank ·) a
  have hw : ∀ c ∈ a.rtakeWhile (!isBlank ·) ++ (part ++ b.takeWhile (!isBlank ·)), isBlank c = false := by
    simp only [forall_mem_append]
    exact ⟨fun c hc => by simpa using mem_rtakeWhile_imp hc, hp, fun c hc => by simpa using mem_takeWhile_imp hc⟩
  have hl : ∀ c ∈ (a.rdropWhile (!isBlank ·)).getLast?, isBlank c = true := fun c hc => by
    simpa using of_mem_getLast?_rdropWhile hc
  have hh : ∀ c ∈ (b.dropWhile (!isBlank ·)).head?, isBlank c = true := fun c hc => by
    simpa using of_mem_head?_dropWhile hc
  refine ⟨_, ?_, a.rtakeWhile (!isBlank ·), b.takeWhile (!isBlank ·), rfl⟩
  have hf := fields_around_word (by simp [hne]) hw hl hh
  have hal : a ++ part ++ b = a.rdropWhile (!isBlank ·) ++ (a.rtakeWhile (!isBlank ·) ++
      (part ++ b.takeWhile (!isBlank ·)) ++ b.dropWhile (!isBlank ·)) := by
    nth_rewrite 1 [← ha, ← hb]
    simp only [append_assoc]
  rw [hal, hf, append_assoc]
  exact mem_append_right _ mem_cons_self

/-! ## Occurrences -/

lemma startsWith_iff {part s : List Char} : startsWith part s = true ↔ part <+: s := by
  induction part generalizing s with
  | nil => simp [startsWith]
  | cons a part ih =>
    cases s with
    | nil => simp [startsWith]
    | cons b s => simp [startsWith, ih]

lemma find?_of_prefix {part s : List Char} (h : part <+: s) : find? part s = some 0 := by
  cases s with
  | nil =>
    rw [prefix_nil.1 h]
    rfl
  | cons c s => rw [find?, if_pos (startsWith_iff.2 h)]

lemma find?_eq_none_of_not_mem {part s : List Char} (hc : c ∈ part) (hs : c ∉ s) : find? part s = none := by
  induction s with
  | nil =>
    have hp : part.isEmpty = false := by
      simpa using ne_nil_of_mem hc
    rw [find?, hp]
    rfl
  | cons a s ih =>
    have hst : ¬ startsWith part (a :: s) = true := by
      intro h
      exact hs ((startsWith_iff.1 h).subset hc)
    rw [find?, if_neg hst, ih fun h => hs (mem_cons_of_mem _ h)]
    rfl

lemma find?_cons_append {a : Char} (ha : a ∉ s) (part t : List Char) :
    find? (a :: part) (s ++ t) = (find? (a :: part) t).map (· + s.length) := by
  induction s with
  | nil => simp
  | cons b s ih =>
    rw [mem_cons, not_or] at ha
    have hs : ¬ startsWith (a :: part) (b :: (s ++ t)) = true := by
      intro h
      exact ha.1 (cons_prefix_cons.1 (startsWith_iff.1 h)).1
    rw [cons_append, find?, if_neg hs, ih ha.2, Option.map_map]
    rfl

lemma find?_eq_none {part s : List Char} : find? part s = none ↔ ¬part <:+: s := by
  induction s with
  | nil => cases part <;> simp [find?]
  | cons c s ih =>
    rw [find?, infix_cons_iff, ← startsWith_iff]
    split
    · next hs => simp [hs]
    · next hs => simp [hs, ih]

lemma eq_of_find? {part s : List Char} {i : ℕ} (h : find? part s = some i) :
    s = s.take i ++ (part ++ s.drop (i + part.length)) := by
  induction s generalizing i with
  | nil => cases part <;> simp_all [find?]
  | cons c s ih =>
    rw [find?] at h
    split at h
    · next hs =>
      obtain ⟨t, ht⟩ := startsWith_iff.1 hs
      cases h
      simp [← ht]
    · obtain ⟨j, hj, rfl⟩ := Option.map_eq_some_iff.1 h
      rw [Nat.add_right_comm, take_succ_cons, drop_succ_cons, cons_append, ← ih hj]

lemma find?_append_left {part s : List Char} {i : ℕ} (h : find? part s = some i) (t : List Char) :
    find? part (s ++ t) = some i := by
  induction s generalizing i with
  | nil =>
    have hp : part = [] ∧ i = 0 := by cases part <;> simp_all [find?]
    rw [hp.1, hp.2]
    exact find?_of_prefix nil_prefix
  | cons c s ih =>
    rw [find?] at h
    split at h
    · next hs =>
      cases h
      exact find?_of_prefix ((startsWith_iff.1 hs).trans (prefix_append _ _))
    · next hs =>
      obtain ⟨j, hj, rfl⟩ := Option.map_eq_some_iff.1 h
      have hl := congrArg List.length (eq_of_find? hj)
      have hlt : ¬startsWith part (c :: (s ++ t)) = true := fun h => hs <| startsWith_iff.2 <|
        prefix_of_prefix_length_le (startsWith_iff.1 h) (prefix_append (c :: s) t) (by simp at hl ⊢; omega)
      rw [cons_append, find?, if_neg hlt, ih hj]
      rfl

/-- A word is first found behind a blank if it does not stand before that. -/
lemma find?_append_blank {part s t : List Char} {b : Char} (hne : part ≠ []) (hs : ¬part <:+: s)
    (hb : b ∉ part) : find? part (s ++ b :: t) = (find? part t).map (· + (s.length + 1)) := by
  induction s with
  | nil =>
    have hst : ¬ startsWith part (b :: t) = true := by
      intro h
      cases part with
      | nil => exact hne rfl
      | cons c part =>
        obtain ⟨rfl, _⟩ := cons_prefix_cons.1 (startsWith_iff.1 h)
        exact hb mem_cons_self
    rw [nil_append, find?, if_neg hst]
    rfl
  | cons c s ih =>
    rw [infix_cons_iff, not_or] at hs
    have hst : ¬ startsWith part (c :: (s ++ b :: t)) = true := by
      intro h
      -- An occurrence at the start either ends before the blank or holds it.
      have hl : c :: s ++ [b] <+: c :: (s ++ b :: t) := ⟨t, by simp⟩
      rcases prefix_or_prefix_of_prefix (startsWith_iff.1 h) hl with hp | hp
      · rcases prefix_concat_iff.1 hp with ha | hsh
        · rw [ha] at hb
          simp at hb
        · exact hs.1 hsh
      · exact hb (hp.subset (by simp))
    rw [cons_append, find?, if_neg hst, ih hs.2, Option.map_map]
    congr 1

/-! ## Parts between separators -/

lemma splitAtChar_of_not_mem {sep : Char} (h : sep ∉ s) : splitAtChar sep s = [s] := by
  induction s with
  | nil => rfl
  | cons c s ih =>
    rw [mem_cons, not_or] at h
    rw [splitAtChar, if_neg (Ne.symm h.1), ih h.2]

lemma splitAtChar_append (sep : Char) (s t : List Char) :
    splitAtChar sep (s ++ sep :: t) = splitAtChar sep s ++ splitAtChar sep t := by
  have hne : ∀ s : List Char, splitAtChar sep s ≠ [] := fun s => by
    cases s with
    | nil => simp [splitAtChar]
    | cons c s =>
      rw [splitAtChar]
      split
      · simp
      · split <;> simp
  induction s with
  | nil => simp [splitAtChar]
  | cons c s ih =>
    rw [cons_append, splitAtChar, splitAtChar, ih]
    split
    · rfl
    · cases hs : splitAtChar sep s with
      | nil => exact absurd hs (hne s)
      | cons => rfl

/-! ## Lines -/

/-- Whether a text is one line with the line feed that ends it. -/
def isLine (s : List Char) : Bool := s.getLast? == some '\n' && s.dropLast.all fun c => c != '\n' && c != '\r'

lemma isLine_iff : isLine s = true ↔ ∃ body, s = body ++ ['\n'] ∧ '\n' ∉ body ∧ '\r' ∉ body := by
  constructor
  · intro h
    simp only [isLine, Bool.and_eq_true, beq_iff_eq, all_eq_true, bne_iff_ne] at h
    obtain ⟨hl, hb⟩ := h
    refine ⟨s.dropLast, (dropLast_append_getLast? _ hl).symm, ?_, ?_⟩
    · intro hm
      exact (hb _ hm).1 rfl
    · intro hm
      exact (hb _ hm).2 rfl
  · rintro ⟨body, rfl, hf, hr⟩
    simp only [isLine, Bool.and_eq_true, all_eq_true, bne_iff_ne]
    rw [dropLast_concat, List.getLast?_concat]
    refine ⟨rfl, fun c hc => ⟨?_, ?_⟩⟩
    · rintro rfl
      exact hf hc
    · rintro rfl
      exact hr hc

lemma unifyLineEnds_of_not_mem (h : '\r' ∉ s) : unifyLineEnds s = s := by
  induction s with
  | nil => rfl
  | cons c s ih =>
    rw [mem_cons, not_or] at h
    rw [unifyLineEnds.eq_4 c s (fun _ hc _ => h.1 hc.symm) (fun hc => h.1 hc.symm), ih h.2]

lemma linesFrom_body {body : List Char} (h : '\n' ∉ body) (line rest : List Char) :
    linesFrom line (body ++ '\n' :: rest) = (line.reverse ++ body ++ ['\n']) :: linesFrom [] rest := by
  induction body generalizing line with
  | nil => simp [linesFrom]
  | cons c body ih =>
    rw [mem_cons, not_or] at h
    rw [cons_append, linesFrom.eq_3 _ _ _ (fun hc => h.1 hc.symm), ih h.2]
    simp

lemma lines_flatten {file : List (List Char)} (h : file.all isLine = true) :
    lines (String.ofList file.flatten) = file := by
  have hl : ∀ line ∈ file, ∃ body, line = body ++ ['\n'] ∧ '\n' ∉ body ∧ '\r' ∉ body := by
    intro line hln
    exact isLine_iff.1 (all_eq_true.1 h line hln)
  have hr : '\r' ∉ file.flatten := by
    intro hm
    obtain ⟨line, hln, hm⟩ := mem_flatten.1 hm
    obtain ⟨body, rfl, _, hb⟩ := hl line hln
    simp [hb] at hm
  rw [lines, String.toList_ofList, unifyLineEnds_of_not_mem hr]
  clear h hr
  induction file with
  | nil => rfl
  | cons line file ih =>
    rw [forall_mem_cons] at hl
    obtain ⟨body, rfl, hb, _⟩ := hl.1
    rw [flatten_cons, append_assoc, singleton_append, linesFrom_body hb, ih hl.2]
    rfl

end Kinetics.Text
