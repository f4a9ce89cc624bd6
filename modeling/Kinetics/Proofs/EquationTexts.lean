import Kinetics.Proofs.Numerals
import Kinetics.Proofs.Outcome
import Kinetics.Reading.MechanismFile
/-!
# Where the equation of a reaction ends

A reaction line ends with three parameters. The equation is cut off where the text of the first
parameter is found first. If the text stands in a word of the equation, the equation ends there,
and its sides are not those that stand on the line (`readReactionLine_sides`).
-/

open List

namespace Kinetics.Reading

open Text

/-! ## The arrow -/

def ink (s : List Char) : ℕ := s.countP (!isBlank ·)

lemma ink_append (s t : List Char) : ink (s ++ t) = ink s + ink t := countP_append

variable {s : List Char}

lemma ink_blanks (h : ∀ c ∈ s, isBlank c = true) : ink s = 0 := countP_eq_zero.2 fun c hc => by simp [h c hc]

lemma ink_strip (s : List Char) : ink (strip s) = ink s := by
  obtain ⟨u, v, hs, hu, hv⟩ := exists_strip s
  conv_rhs => rw [hs, ink_append, ink_append, ink_blanks hu, ink_blanks hv, Nat.zero_add, Nat.add_zero]

/-- The arrow of an equation: the first that is found, the longer ones first. -/
inductive FoundArrow (s : List Char) : List Char → Bool → Prop
  | both : FoundArrow s ['<', '=', '>'] true
  | forth : FoundArrow s ['=', '>'] false
  | plain (h : ¬['<', '=', '>'] <:+: s) : FoundArrow s ['='] true

lemma splitArrow_eq_ok {s left right : List Char} {reversible : Bool}
    (h : splitArrow s = .ok (reversible, left, right)) : ∃ arrow, FoundArrow s arrow reversible ∧ arrow <:+: s ∧
      ink s = ink left + arrow.length + ink right := by
  have hc : ∀ {arrow : List Char} {i : ℕ}, find? arrow s = some i → ink arrow = arrow.length →
      left = strip (s.take i) → right = strip (s.drop (i + arrow.length)) →
      arrow <:+: s ∧ ink s = ink left + arrow.length + ink right := by
    rintro arrow i hf hin rfl rfl
    have hs := eq_of_find? hf
    refine ⟨⟨_, _, (append_assoc ..).trans hs.symm⟩, ?_⟩
    rw [ink_strip, ink_strip, ← hin, Nat.add_assoc, ← ink_append, ← ink_append, hin, ← hs]
  unfold splitArrow at h
  split at h
  · next i hi =>
    cases h
    exact ⟨_, .both, hc hi rfl rfl rfl⟩
  · next hb =>
    split at h
    · next i hi =>
      cases h
      exact ⟨_, .forth, hc hi rfl rfl rfl⟩
    · split at h
      · next i hi =>
        cases h
        exact ⟨_, .plain (find?_eq_none.1 hb), hc hi rfl rfl rfl⟩
      · cases h

lemma splitArrow_isOk (h : '=' ∈ s) : ∃ sides, splitArrow s = .ok sides := by
  unfold splitArrow
  split
  · exact ⟨_, rfl⟩
  · split
    · exact ⟨_, rfl⟩
    · split
      · exact ⟨_, rfl⟩
      · next hn => exact absurd ((singleton_infix_iff _ _).2 h) (find?_eq_none.1 hn)

/-- An equation that is cut off has other sides, unless it is cut off within the arrow. -/
lemma splitArrow_ne {s t : List Char} (he : '=' ∈ s ++ t) (hi : 0 < ink t)
    (ht : ∀ c ∈ t.head?, c ≠ '=' ∧ c ≠ '>') : splitArrow s ≠ splitArrow (s ++ t) := by
  intro heq
  obtain ⟨⟨reversible, left, right⟩, hal⟩ := splitArrow_isOk he
  obtain ⟨arrow, ha, -, hs⟩ := splitArrow_eq_ok (heq.trans hal)
  obtain ⟨arrow', ha', hin, hst⟩ := splitArrow_eq_ok hal
  rw [ink_append] at hst
  -- the same sides leave more characters of the longer text to its arrow
  have hl : arrow'.length = arrow.length + ink t := by omega
  cases ha with
  | both => cases ha' <;> simp only [length_cons, length_nil] at hl <;> omega
  | forth =>
    cases ha'
    omega
  | plain hn =>
    cases ha' with
    | plain =>
      omega
    | both =>
      have hth : ∀ u : List Char, 3 ≤ ink ('<' :: '=' :: '>' :: u) := fun u => by
        rw [show '<' :: '=' :: '>' :: u = ['<', '=', '>'] ++ u from rfl, ink_append]
        exact Nat.le_add_right 3 _
      simp only [length_cons, length_nil] at hl
      obtain ⟨a, b, hab⟩ := hin
      rw [append_assoc, append_eq_append_iff] at hab
      -- the longer arrow does not end in the shorter text, and the rest neither starts within it nor holds it all
      obtain ⟨c, rfl, htl⟩ | ⟨c, -, rfl⟩ := hab
      · rcases c with _ | ⟨c₁, _ | ⟨c₂, _ | ⟨c₃, c⟩⟩⟩
        · have := hth b
          rw [nil_append] at htl
          rw [← htl] at hl
          exact absurd hl (by simp only [cons_append, nil_append]; omega)
        · cases htl
          exact (ht '=' rfl).1 rfl
        · cases htl
          exact (ht '>' rfl).2 rfl
        · cases htl
          exact hn ⟨a, c, by simp⟩
      · have := hth b
        rw [ink_append] at hl
        exact absurd hl (by simp only [cons_append, nil_append]; omega)

/-! ## Reaction lines -/

/-- The text before the place where a part is found first. -/
def textBefore (part line : List Char) : List Char := strip (line.take ((find? part line).getD 0))

/-- What a reaction line gives that has the text for its equation and three parameters. -/
def reactionOf (unit : EnergyUnit) (text factor exponent energy : List Char) :
    Except Fault (Reaction String Scalar) := do
  let A ← Number.readReal factor
  let b ← Number.readReal exponent
  let E ← Number.readReal energy
  let equation ← readEquation text
  let converted ← convertRate (.float A) equation.reactants.nu equation.thirdBody
  let r := Reaction.elementary equation.reversible equation.reactants.names equation.reactants.nu
    equation.products.names equation.products.nu converted (.float b) (unit.toKelvin (.float E))
  return { r with
    thirdBody := equation.thirdBody
    falloff := equation.falloff
    collider := equation.collider }

section Line
variable {line factor exponent energy : List Char} {front : List (List Char)}
  (hfields : fields line = front ++ [factor, exponent, energy])

include hfields

lemma readReactionLine_eq (unit : EnergyUnit) :
    readReactionLine unit line = reactionOf unit (textBefore factor line) factor exponent energy := by
  have hl : (fields line).length = front.length + 3 := by simp [hfields]
  have hwr : ∀ {k : ℕ} {w : List Char}, k ≤ 3 → [factor, exponent, energy][3 - k]? = some w →
      wordFromEnd (fields line) k = .ok w := by
    intro k w hk hw
    have hb : front.length ≤ front.length + 3 - k := by omega
    rw [wordFromEnd, if_pos (by omega), entryAt_eq_ok, hl, hfields, List.getElem?_append_right hb,
      show front.length + 3 - k - front.length = 3 - k by omega, hw]
  unfold readReactionLine reactionOf textBefore
  dsimp only
  rw [hwr (by decide) rfl, hwr (by decide) rfl, hwr (by decide) rfl]
  rfl

end Line

lemma mem_strip {c : Char} (hc : isBlank c = false) (h : c ∈ s) : c ∈ strip s := by
  obtain ⟨a, b, rfl⟩ := append_of_mem h
  obtain ⟨u, b', -, hs⟩ := strip_append_cons hc a b
  simp [hs]

lemma textBefore_of_isInfix {part s : List Char} (hne : part ≠ []) (hw : ∀ c ∈ part, isBlank c = false)
    (hf : '=' ∉ part ∧ '>' ∉ part) (he : '=' ∈ s) (hin : part <:+: s) (t : List Char) :
    textBefore part (s ++ t) <+: strip s ∧ splitArrow (textBefore part (s ++ t)) ≠ splitArrow (strip s) := by
  obtain ⟨i, hi⟩ := Option.ne_none_iff_exists'.1 (mt Text.find?_eq_none.1 (not_not.2 hin))
  have hct := eq_of_find? hi
  have hle : i ≤ s.length := by
    have hl := congrArg List.length hct
    have hp := length_pos_iff.2 hne
    simp only [length_append, length_take] at hl
    omega
  have ht : textBefore part (s ++ t) = strip (s.take i) := by
    rw [textBefore, find?_append_left hi, Option.getD_some, take_append_of_le_length hle]
  obtain ⟨f, fs, rfl⟩ := exists_cons_of_ne_nil hne
  rw [forall_mem_cons] at hw
  obtain ⟨u, z, hu, hs⟩ := strip_append_cons hw.1 (s.take i) (fs ++ s.drop (i + (f :: fs).length))
  rw [← cons_append, ← hct] at hs
  rw [ht, hs]
  refine ⟨prefix_append _ _, splitArrow_ne ?_ ?_ ?_⟩
  · rw [← hs]
    exact mem_strip (by decide) he
  · rw [ink, countP_pos_iff]
    exact ⟨f, by simp, by simp [hw.1]⟩
  · intro c hc
    cases u with
    | nil =>
      cases hc
      exact ⟨fun h => hf.1 (h ▸ mem_cons_self), fun h => hf.2 (h ▸ mem_cons_self)⟩
    | cons b u =>
      cases hc
      have hb := hu c mem_cons_self
      constructor <;> rintro rfl <;> exact absurd hb (by decide)

/-- A line in front of its last three words is an equation. Its sides are those that the reader takes just if no word
of the equation holds the text of the first parameter. -/
theorem readReactionLine_sides {d : Draft} (hreactions : d.current = some .reactions)
    {line factor exponent energy : List Char} {front : List (List Char)}
    (hfields : fields line = front ++ [factor, exponent, energy]) (hfront : front ≠ []) (hequals : '=' ∈ line)
    (hnumbers : ∀ w ∈ [factor, exponent, energy], ∃ x, Number.readReal w = .ok x) : readContent d line = (do
      let r ← reactionOf d.unit (textBefore factor line) factor exponent energy
      return { d with reactions := d.reactions ++ [r], last := { thirdBody := r.thirdBody } }) ∧
    ∃ equation rest, line = equation ++ (factor ++ rest) ∧ fields equation = front ∧ fields rest = [exponent, energy] ∧
      textBefore factor line <+: strip equation ∧
      (splitArrow (textBefore factor line) = splitArrow (strip equation) ↔ ∀ w ∈ front, ¬factor <:+: w) := by
  refine ⟨?_, ?_⟩
  · simp only [readContent, hreactions, contains_iff_mem, hequals, if_true, readReactionLine_eq hfields]
  obtain ⟨equation, rest, hline, hequation, hrest, hlast, hhead, hne, hword⟩ := exists_field hfields
  refine ⟨equation, rest, hline, hequation, hrest, ?_⟩
  obtain rfl | ⟨s, c, rfl⟩ := eq_nil_or_concat' equation
  · exact absurd hequation.symm hfront
  have hc : isBlank c = true := hlast c List.getLast?_concat
  rw [fields_append_blank s [] hc, show fields [] = [] from rfl, append_nil] at hequation
  have hwords : (∀ w ∈ front, ¬factor <:+: w) ↔ ¬factor <:+: s := by
    rw [← hequation]
    refine ⟨fun hall hin => ?_, fun hnot w hw hin => hnot (hin.trans (isInfix_of_mem_fieldsFrom hw))⟩
    obtain ⟨w, hw, hin⟩ := exists_field_of_isInfix hne hword hin
    exact hall w hw hin
  rw [append_assoc, singleton_append] at hline
  rw [hwords, strip_append_blanks s (forall_mem_singleton.2 hc)]
  by_cases hin : factor <:+: s
  · have hnot : ∀ w ∈ [factor, exponent, energy], ∀ c ∈ ['!', '=', '>'], c ∉ w := by
      intro w hw c hc
      obtain ⟨x, hx⟩ := hnumbers w hw
      exact (Number.foreign_of_mem hc).not_mem hx
    have hequals : '=' ∈ s := by
      -- no word behind the equation holds an equals sign
      have hafter : ∀ w ∈ fields (factor ++ rest), '=' ∉ w := fun w hw => by
        rw [← nil_append (factor ++ rest), fields_around_word hne hword (by simp) hhead, hrest] at hw
        exact hnot w hw _ (by simp)
      rw [hline, mem_append, mem_cons] at hequals
      obtain h | rfl | h := hequals
      · exact h
      · exact absurd hc (by decide)
      · obtain ⟨w, hw, hin⟩ := exists_field_of_isInfix (cons_ne_nil _ _)
          (forall_mem_singleton.2 (by decide)) ((singleton_infix_iff _ _).2 h)
        exact absurd ((singleton_infix_iff _ _).1 hin) (hafter w hw)
    have hcut := textBefore_of_isInfix hne hword ⟨hnot _ (by simp) _ (by simp), hnot _ (by simp) _ (by simp)⟩
      hequals hin (c :: (factor ++ rest))
    rw [← hline] at hcut
    exact ⟨hcut.1, iff_of_false hcut.2 (not_not.2 hin)⟩
  · have hfind : find? factor line = some (s.length + 1) := by
      have hnot : c ∉ factor := fun hmem => by simp [hword c hmem] at hc
      rw [hline, find?_append_blank hne hin hnot, find?_of_prefix (prefix_append _ _)]
      simp
    have htext : textBefore factor line = strip s := by
      rw [textBefore, hfind, Option.getD_some, hline, ← singleton_append, ← append_assoc,
        take_left' (by simp), strip_append_blanks s (forall_mem_singleton.2 hc)]
    rw [htext]
    exact ⟨prefix_refl _, iff_of_true rfl hin⟩

/-- The factor stands in the name of the product, and the product is taken for an atom. -/
theorem readReactionLine_sides_hydrogen : textBefore ['2'] "H+H=H2 2 0 0".toList = "H+H=H".toList ∧
    ∃ equation rest, "H+H=H2 2 0 0".toList = equation ++ (['2'] ++ rest) ∧ fields equation = ["H+H=H2".toList] ∧
      splitArrow (textBefore ['2'] "H+H=H2 2 0 0".toList) ≠ splitArrow (strip equation) := by
  have hfields : fields "H+H=H2 2 0 0".toList = ["H+H=H2".toList] ++ [['2'], ['0'], ['0']] := by decide
  have hnumbers : ∀ w ∈ [['2'], ['0'], ['0']], ∃ x, Number.readReal w = .ok x := by
    simp only [forall_mem_cons]
    exact ⟨⟨_, rfl⟩, ⟨_, rfl⟩, ⟨_, rfl⟩, forall_mem_nil _⟩
  obtain ⟨-, equation, rest, hline, hequation, -, -, hsides⟩ :=
    readReactionLine_sides (d := { current := some .reactions }) rfl hfields (by simp) (by decide) hnumbers
  refine ⟨by decide, equation, rest, hline, hequation, fun h => ?_⟩
  exact hsides.1 h _ mem_cons_self ⟨"H+H=H".toList, [], by decide⟩

end Kinetics.Reading
