import Kinetics.Proofs.ReverseDirections
import Kinetics.Proofs.WrittenSides
/-!
# Reactions written and read

A reaction can be written with any blanks around its plus signs, its arrow and its third body. The
main theorem says that reading such a line gives the reaction that was written
(`written_reaction_read`): every name once, with the sum of its coefficients, and the parameters in
the units of the mechanism.
-/

open List

namespace Kinetics.Reading

open Text

/-! ## Equations -/

/-- How an arrow is written. -/
inductive Arrow where
  | both
  | forward
  | equal

namespace Arrow

def text : Arrow → List Char
  | both => ['<', '=', '>']
  | forward => ['=', '>']
  | equal => ['=']

def reversible : Arrow → Bool
  | both | equal => true
  | forward => false

end Arrow

lemma splitArrow_written {left right : List Char} (hlf : Firm left) (hrg : Firm right)
    (hl : ∀ c ∈ ['<', '=', '>'], c ∉ left) (hr : ∀ c ∈ ['<', '=', '>'], c ∉ right)
    (u v : Blanks) (arrow : Arrow) :
    splitArrow (left ++ u.1 ++ (arrow.text ++ (v.1 ++ right))) = .ok (arrow.reversible, left, right) := by
  have hbl : ∀ (w : Blanks), ∀ c ∈ ['<', '=', '>'], c ∉ w.1 := by
    intro w c hc hmem
    have hb := w.2 c hmem
    simp only [mem_cons, not_mem_nil, or_false] at hc
    rcases hc with rfl | rfl | rfl
    · exact absurd hb (by decide)
    · exact absurd hb (by decide)
    · exact absurd hb (by decide)
  have hbf : ∀ c ∈ ['<', '=', '>'], c ∉ left ++ u.1 := by
    intro c hc
    simp [hl c hc, hbl u c hc]
  have haf : ∀ c ∈ ['<', '=', '>'], c ∉ v.1 ++ right := by
    intro c hc
    simp [hr c hc, hbl v c hc]
  have htk : ∀ t : List Char, strip ((left ++ u.1 ++ t).take (left ++ u.1).length) = left := by
    intro t
    rw [take_left]
    have := strip_around (u := []) hlf (by simp) u.2
    rwa [nil_append] at this
  have hd : ∀ t : List Char, strip ((left ++ u.1 ++ (t ++ (v.1 ++ right))).drop ((left ++ u.1).length + t.length)) =
        right := by
    intro t
    rw [← drop_drop, drop_left, drop_left]
    have := strip_around (v := []) hrg v.2 (by simp)
    rwa [append_nil] at this
  have hf : ∀ (a : Char) (t : List Char), a ∈ ['<', '=', '>'] →
      find? (a :: t) (left ++ u.1 ++ (a :: t ++ (v.1 ++ right))) = some (left ++ u.1).length := by
    intro a t ha
    rw [find?_cons_append (hbf a ha), find?_of_prefix (prefix_append _ _)]
    simp
  have hn : ∀ (part t : List Char) (a : Char), a ∈ ['<', '=', '>'] → a ∈ part → a ∉ t →
      find? part (left ++ u.1 ++ (t ++ (v.1 ++ right))) = none := by
    intro part t a ha hp ht
    apply find?_eq_none_of_not_mem hp
    intro hmem
    rcases mem_append.1 hmem with hmem | hmem
    · exact hbf a ha hmem
    · rcases mem_append.1 hmem with hmem | hmem
      · exact ht hmem
      · exact haf a ha hmem
  unfold splitArrow Arrow.text
  cases arrow with
  | both =>
    dsimp only
    rw [hf '<' ['=', '>'] (by simp)]
    dsimp only
    rw [htk]
    exact congrArg (fun r => Except.ok (true, left, r)) (hd ['<', '=', '>'])
  | forward =>
    dsimp only
    rw [hn ['<', '=', '>'] ['=', '>'] '<' (by simp) (by simp) (by decide)]
    dsimp only
    rw [hf '=' ['>'] (by simp)]
    dsimp only
    rw [htk]
    exact congrArg (fun r => Except.ok (false, left, r)) (hd ['=', '>'])
  | equal =>
    dsimp only
    rw [hn ['<', '=', '>'] ['='] '<' (by simp) (by simp) (by decide)]
    dsimp only
    rw [hn ['=', '>'] ['='] '>' (by simp) (by simp) (by decide)]
    dsimp only
    rw [hf '=' [] (by simp)]
    dsimp only
    rw [htk]
    exact congrArg (fun r => Except.ok (true, left, r)) (hd ['='])

/-! ## Lines -/

/-- A word that is read as a number. -/
structure NumberText where
  text : List Char
  value : Float
  word : ∀ c ∈ text, isBlank c = false
  reads : Number.readReal text = .ok value

lemma NumberText.ne_nil (x : NumberText) : x.text ≠ [] := by
  intro h
  have := x.reads
  rw [h] at this
  cases this

lemma NumberText.firm (x : NumberText) : Firm x.text := firm_of_forall x.ne_nil x.word

abbrev Gap := {s : List Char // s ≠ [] ∧ ∀ c ∈ s, isBlank c = true}

/-- A reaction as it is written on a line: its equation and three parameters, the first of which has a
point, with blanks between all of them. -/
structure WrittenReaction where
  reactants : WrittenSide
  products : WrittenSide
  body : Body
  arrow : Arrow
  factor : NumberText
  exponent : NumberText
  energy : NumberText
  point : '.' ∈ factor.text
  indent : Blanks
  beforeArrow : Blanks
  afterArrow : Blanks
  beforeFactor : Gap
  beforeExponent : Gap
  beforeEnergy : Gap
  ending : Blanks

namespace WrittenReaction
variable (w : WrittenReaction)

def terms : List Term := w.reactants.terms ++ w.products.terms

def order : ℕ := orderIn w.reactants.terms

def equation : List Char := w.reactants.text w.body ++ w.beforeArrow.1 ++
    (w.arrow.text ++ (w.afterArrow.1 ++ w.products.text w.body))

def content : List Char := w.equation ++ w.beforeFactor.1 ++ w.factor.text ++ w.beforeExponent.1 ++ w.exponent.text ++
    w.beforeEnergy.1 ++ w.energy.text

def line : List Char := w.indent.1 ++ w.content ++ w.ending.1

/-- The power of a thousand by which the factor is divided: the order of the reaction, less one unless
a third body takes part as a term. -/
def power : ℤ := if w.body = .term then w.order else w.order - 1

def reaction (unit : EnergyUnit) : Reaction String Scalar := { Reaction.elementary w.arrow.reversible
      (namesIn w.reactants.terms) ((namesIn w.reactants.terms).map fun name =>
        .int (amountOf w.reactants.terms name))
      (namesIn w.products.terms) ((namesIn w.products.terms).map fun name =>
        .int (amountOf w.products.terms name))
      (.float (w.factor.value / thousandTo (Scalar.floatOfInt w.power)))
      (.float w.exponent.value) (unit.toKelvin (.float w.energy.value)) with
    thirdBody := decide (w.body = .term)
    falloff := decide (w.body = .parenthesis)
    collider := none }

lemma equation_firm : Firm w.equation := by
  have := (w.reactants.firm_text w.body).append (w.products.firm_text w.body)
    (w.beforeArrow.1 ++ (w.arrow.text ++ w.afterArrow.1))
  simpa [equation] using this

lemma content_firm : Firm w.content := by
  have := w.equation_firm.append w.energy.firm (w.beforeFactor.1 ++ w.factor.text ++
    w.beforeExponent.1 ++ w.exponent.text ++ w.beforeEnergy.1)
  simpa [content] using this

lemma strip_line : strip w.line = w.content := strip_around w.content_firm w.indent.2 w.ending.2

/-- The equation is read as it was meant, if no coefficient is too long. -/
lemma readEquation_equation : readEquation w.equation = if w.terms.all Term.short then
      .ok { reversible := w.arrow.reversible
            reactants := { sideOf w.reactants.terms with thirdBody := decide (w.body = .term) }
            products := { sideOf w.products.terms with thirdBody := decide (w.body = .term) }
            falloff := decide (w.body = .parenthesis)
            collider := none }
    else .error .notNumeric := by
  unfold readEquation equation
  rw [splitArrow_written (w.reactants.firm_text _) (w.products.firm_text _)
    (w.reactants.no_arrow _) (w.products.no_arrow _), ok_bind]
  dsimp only
  rw [w.reactants.takeCollider_text, ok_bind]
  dsimp only
  rw [w.reactants.readTerms_words]
  unfold terms
  rw [all_append]
  cases w.reactants.terms.all Term.short with
  | false => rfl
  | true =>
    rw [if_pos rfl, ok_bind, w.products.takeCollider_text, ok_bind]
    dsimp only
    rw [w.products.readTerms_words, Bool.true_and]
    cases w.products.terms.all Term.short with
    | false => rfl
    | true =>
      rw [if_pos rfl, ok_bind]
      cases w.body <;> rfl

/-- The line without blanks around it ends with the three parameters. -/
lemma fields_content : fields w.content = fields w.equation ++ [w.factor.text, w.exponent.text, w.energy.text] := by
  unfold content
  rw [fields_append_gap w.beforeEnergy.2.1 w.beforeEnergy.2.2,
    fields_append_gap w.beforeExponent.2.1 w.beforeExponent.2.2,
    fields_append_gap w.beforeFactor.2.1 w.beforeFactor.2.2, fields_word w.factor.ne_nil w.factor.word,
    fields_word w.exponent.ne_nil w.exponent.word, fields_word w.energy.ne_nil w.energy.word]
  simp

lemma not_mem_equation {c : Char} (hp : isPlain c = false) (hb : isBlank c = false)
    (hm : c ∉ ['(', '+', 'M', ')']) (ha : c ∉ ['<', '=', '>']) : c ∉ w.equation := by
  have hgap : ∀ u : Blanks, c ∉ u.1 := by
    intro u hmem
    rw [u.2 c hmem] at hb
    cases hb
  have ht : c ∉ w.arrow.text := by
    intro hmem
    apply ha
    cases h : w.arrow with
    | both => simpa [h, Arrow.text] using hmem
    | forward =>
      rw [h] at hmem
      exact mem_cons_of_mem _ hmem
    | equal =>
      rw [h] at hmem
      simp [mem_singleton.1 hmem]
  simp only [equation, mem_append, not_or]
  exact ⟨⟨w.reactants.not_mem_text _ hp hb hm, hgap _⟩, ht, hgap _, w.products.not_mem_text _ hp hb hm⟩

/-- What stands before the text of the first parameter is the equation. -/
lemma strip_take_content : strip (w.content.take ((find? w.factor.text w.content).getD 0)) = w.equation := by
  obtain ⟨u, c, hgap⟩ : ∃ u c, w.beforeFactor.1 = u ++ [c] :=
    (eq_nil_or_concat' w.beforeFactor.1).resolve_left w.beforeFactor.2.1
  have hb := w.beforeFactor.2.2
  rw [hgap] at hb
  have hc : isBlank c = true := hb c (by simp)
  have hcn : w.content = w.equation ++ u ++ c :: (w.factor.text ++ (w.beforeExponent.1 ++
      w.exponent.text ++ w.beforeEnergy.1 ++ w.energy.text)) := by
    simp [content, hgap]
  -- The parameter has a point and the equation has none, and no blank stands in the parameter: its
  -- text cannot be found earlier.
  have hp : '.' ∉ w.equation ++ u := by
    rw [mem_append, not_or]
    refine ⟨w.not_mem_equation (by decide) (by decide) (by decide) (by decide), fun hmem => ?_⟩
    exact absurd (hb '.' (mem_append_left _ hmem)) (by decide)
  have hnot : c ∉ w.factor.text := by
    intro hmem
    rw [w.factor.word c hmem] at hc
    cases hc
  have hf : find? w.factor.text w.content = some ((w.equation ++ u).length + 1) := by
    rw [hcn, find?_append_blank (ne_nil_of_mem w.point) (fun h => hp (h.subset w.point)) hnot, find?_of_prefix (prefix_append _ _)]
    simp
  have ht : w.content.take ((w.equation ++ u).length + 1) = w.equation ++ (u ++ [c]) := by
    have hl : (w.equation ++ u).length + 1 = (w.equation ++ (u ++ [c])).length := by
      simp [Nat.add_assoc]
    have hs : w.content = w.equation ++ (u ++ [c]) ++ (w.factor.text ++ (w.beforeExponent.1 ++
        w.exponent.text ++ w.beforeEnergy.1 ++ w.energy.text)) := by
      simp [hcn]
    rw [hl, hs, take_left]
  rw [hf, Option.getD_some, ht]
  have := strip_around (u := []) w.equation_firm (by simp) hb
  rwa [nil_append] at this

lemma order_pos : 1 ≤ w.order := by
  have hf := w.reactants.first.coefficient_pos
  unfold order orderIn WrittenSide.terms
  rw [map_cons, sum_cons]
  omega

end WrittenReaction

/-! ## Parameters -/

lemma wordFromEnd_append (words : List (List Char)) (a b c : List Char) :
    wordFromEnd (words ++ [a, b, c]) 3 = .ok a ∧ wordFromEnd (words ++ [a, b, c]) 2 = .ok b ∧
      wordFromEnd (words ++ [a, b, c]) 1 = .ok c := by
  have hl : (words ++ [a, b, c]).length = words.length + 3 := by simp
  unfold wordFromEnd
  rw [hl, if_pos (by omega), if_pos (by omega), if_pos (by omega)]
  simp only [entryAt_eq_ok]
  refine ⟨?_, ?_, ?_⟩ <;> rw [List.getElem?_append_right (by omega)] <;> simp

/-- Whole powers up to a hundred are in the range in which factors can be converted. -/
lemma convertFactor_whole (A : Float) {n : ℕ} (hn : n ≤ 100) {power : Scalar}
    (hp : power.toFloat = Scalar.floatOfInt n) :
    convertFactor (.float A) power = .ok (.float (A / thousandTo (Scalar.floatOfInt n))) := by
  have hr : ((List.range 101).all fun n : ℕ =>
      !decide (lastPower < Scalar.floatOfInt n) && !decide (Scalar.floatOfInt n < firstPower)) =
      true := by
    decide +kernel
  have hn := all_eq_true.1 hr n (mem_range.2 (by omega))
  simp only [Bool.and_eq_true, Bool.not_eq_true', decide_eq_false_iff_not] at hn
  unfold convertFactor
  dsimp only
  rw [hp, if_neg (by simp [hn.1]), if_neg hn.2]
  rfl

lemma convertRate_order {nu : List Scalar} {n : ℕ} (hnu : orderOf nu = .int n) (hpos : 1 ≤ n)
    (hn : n ≤ 100) (A : Float) (thirdBody : Bool) :
    convertRate (.float A) nu thirdBody =
      .ok (.float (A / thousandTo (Scalar.floatOfInt (if thirdBody then n else n - 1)))) := by
  unfold convertRate
  rw [hnu]
  cases thirdBody with
  | true => exact convertFactor_whole A hn rfl
  | false =>
    rw [if_neg Bool.false_ne_true, if_neg Bool.false_ne_true]
    have hl : Scalar.floatOfInt n - 1.0 = Scalar.floatOfInt ((n - 1 : ℕ) : ℤ) := by
      have hall : ((List.range 101).all fun n : ℕ =>
          decide (n = 0) || decide (Scalar.floatOfInt n - 1.0 = Scalar.floatOfInt ((n - 1 : ℕ) : ℤ))) =
          true := by
        decide +kernel
      have hn := all_eq_true.1 hall n (mem_range.2 (by omega))
      rw [Bool.or_eq_true, decide_eq_true_eq, decide_eq_true_eq] at hn
      exact hn.resolve_left (by omega)
    rw [← Nat.cast_pred hpos]
    exact convertFactor_whole A (by omega) hl

variable {d : Draft}

namespace WrittenReaction
variable (w : WrittenReaction)

/-- The reaction is read as it was meant, if no coefficient is too long. -/
lemma readReactionLine_content (ho : w.order ≤ 100) (unit : EnergyUnit) : readReactionLine unit w.content =
      if w.terms.all Term.short then .ok (w.reaction unit) else .error .notNumeric := by
  obtain ⟨hf, he, hen⟩ := wordFromEnd_append (fields w.equation) w.factor.text w.exponent.text w.energy.text
  unfold readReactionLine
  dsimp only
  rw [w.fields_content, hf, ok_bind, w.factor.reads, ok_bind, he, ok_bind,
    w.exponent.reads, ok_bind, hen, ok_bind, w.energy.reads, ok_bind, w.strip_take_content,
    w.readEquation_equation]
  cases w.terms.all Term.short with
  | false => rfl
  | true =>
    have ht : (Equation.mk w.arrow.reversible { sideOf w.reactants.terms with thirdBody := decide (w.body = .term) }
        { sideOf w.products.terms with thirdBody := decide (w.body = .term) }
        (decide (w.body = .parenthesis)) none).thirdBody = decide (w.body = .term) := by
      cases w.body <;> rfl
    have hc := convertRate_order (orderOf_sideOf w.reactants.terms) w.order_pos ho
      w.factor.value (decide (w.body = .term))
    rw [if_pos rfl, ok_bind, if_pos rfl, ht, hc, ok_bind]
    unfold reaction power
    simp only [decide_eq_true_eq]
    rfl

lemma no_comment : '!' ∉ w.content := by
  have hgap : ∀ u : Gap, '!' ∉ u.1 := by
    intro u hmem
    exact absurd (u.2.2 _ hmem) (by decide)
  have hn : ∀ x : NumberText, '!' ∉ x.text := by
    intro x
    exact (Number.foreign_of_mem (by decide)).not_mem x.reads
  have he := w.not_mem_equation (c := '!') (by decide) (by decide) (by decide) (by decide)
  simp [content, hgap, hn, he]

lemma cutComment_content : cutComment w.content = w.content := by
  rw [cutComment, find?_eq_none_of_not_mem mem_cons_self w.no_comment]

lemma trimmed_line : trimmed w.line = w.content := by
  rw [trimmed, w.strip_line, w.cutComment_content]

lemma isIgnored_line : isIgnored w.line = false := by
  unfold isIgnored line
  rw [append_assoc, stripLeft_blanks_append w.indent.2, w.content_firm.stripLeft]
  cases hc : w.content with
  | nil => exact absurd hc w.content_firm.ne_nil
  | cons c rest =>
    have hne : c ≠ '!' := by
      rintro rfl
      apply w.no_comment
      simp [hc]
    simpa using hne

lemma openingOf_line (h : ∀ keyword ∈ sectionKeywords, opensWith keyword w.content = false) :
    openingOf w.line = .content :=
  openingOf_content w.isIgnored_line (by rwa [w.trimmed_line])

lemma equals_mem_content : w.content.contains '=' = true := by
  have ha : '=' ∈ w.arrow.text := by
    cases w.arrow <;> decide
  rw [contains_eq_mem, decide_eq_true_eq]
  simp [content, equation, ha]

/-- In a section of reactions the line adds one reaction, or is refused for a long coefficient. -/
lemma readLine_line (ho : w.order ≤ 100) (hk : ∀ keyword ∈ sectionKeywords, opensWith keyword w.content = false)
    (file : List (List Char)) (hd : d.current = some .reactions) (s : Session) :
    (readLine file d w.line).start s = if w.terms.all Term.short then
        (.ok { d with
          reactions := d.reactions ++ [w.reaction d.unit]
          last := { thirdBody := decide (w.body = .term) } }, s)
      else (.error .notNumeric, s) := by
  rw [readLine_eq, w.openingOf_line hk, w.trimmed_line]
  unfold readOpened readContent
  rw [hd]
  dsimp only
  rw [if_pos w.equals_mem_content, w.readReactionLine_content ho]
  cases w.terms.all Term.short with
  | false => rfl
  | true => rfl

end WrittenReaction

/-! ## A mechanism with one reaction -/

/-- Lines that are ignored or close a section leave the mechanism as it is. -/
lemma readLines_idle (file : List (List Char)) {lines : List (List Char)}
    (h : ∀ raw ∈ lines, openingOf raw = .ignored ∨ openingOf raw = .ending) (d : Draft) (s : Session) :
    ∃ d', (lines.foldlM (readLine file) d).start s = (.ok d', s) ∧ d'.toMechanism = d.toMechanism := by
  induction lines generalizing d with
  | nil => exact ⟨d, rfl, rfl⟩
  | cons raw rest ih =>
    rw [forall_mem_cons] at h
    have hl : ∃ d₁, (readLine file d raw).start s = (.ok d₁, s) ∧ d₁.toMechanism = d.toMechanism := by
      rw [readLine_eq]
      rcases h.1 with hraw | hraw
      · rw [hraw]
        exact ⟨d, rfl, rfl⟩
      · rw [hraw]
        exact ⟨_, rfl, rfl⟩
    obtain ⟨d₁, hl, hd₁⟩ := hl
    obtain ⟨d', hr, hd'⟩ := ih h.2 d₁
    refine ⟨d', ?_, hd'.trans hd₁⟩
    rw [foldlM_cons, Reader.start_bind_of_ok hl, hr]

lemma checkNames_of_known {names : List String} {r : Reaction String Scalar}
    (h : ∀ name ∈ r.reactants ++ r.products, name ∈ names) (i : ℕ) :
    checkNames names i r = pure () := by
  have hn : (r.reactants ++ r.products).filter (!names.contains ·) = [] := by
    rw [filter_eq_nil_iff]
    intro name hnm
    simp [h name hnm]
  rw [checkNames, hn, mergeSort_nil]

variable {species : List (Species Scalar)}

lemma completeSpecies_of_weights
    (h : species.any isWeightless = false) (thermo : Option (Except Fault (List (List Char)))) :
    completeSpecies thermo species = pure species := by
  have hn : species.filter isWeightless = [] := by
    rw [filter_eq_nil_iff]
    exact any_eq_false.1 h
  unfold completeSpecies
  dsimp only
  rw [h, pure_bind, hn]
  rfl

namespace WrittenReaction
variable (w : WrittenReaction)

/-- A file whose only reaction is the line gives a mechanism whose only reaction is the one that was
meant, if its species are listed and complete. -/
lemma readMechanism_line (hs : w.terms.all Term.short = true) (ho : w.order ≤ 100)
    (hk : ∀ keyword ∈ sectionKeywords, opensWith keyword w.content = false)
    {text : String} {thermo : Option (Except Fault String)} {front back : List (List Char)}
    {s s₁ s' : Session}
    (hl : Text.lines text = front ++ w.line :: back)
    (hf : (front.foldlM (readLine (Text.lines text)) {}).start s = (.ok d, s₁))
    (hsc : d.current = some .reactions) (hfst : d.reactions = [])
    (hb : ∀ raw ∈ back, openingOf raw = .ignored ∨ openingOf raw = .ending)
    (hns : ∀ t ∈ w.terms, t.species ∈ namesOf d.species)
    (hc : (completeSpecies (thermo.map (·.map Text.lines)) d.species).start s₁ = (.ok species, s')) :
    (readMechanism text thermo).start s =
      (.ok { elements := d.elements, species, reactions := [w.reaction d.unit] }, s') := by
  have hln := w.readLine_line ho hk (Text.lines text) hsc s₁
  rw [hs, hfst, nil_append] at hln
  obtain ⟨d', hr, hd'⟩ := readLines_idle (Text.lines text) hb { d with
      reactions := [w.reaction d.unit]
      last := { thirdBody := decide (w.body = .term) } } s₁
  have hrd : ((Text.lines text).foldlM (readLine (Text.lines text)) {}).start s = (.ok d', s₁) := by
    rw [hl, foldlM_append, ← hl, Reader.start_bind_of_ok hf, foldlM_cons, Reader.start_bind_of_ok hln, hr]
  have hkn : ∀ name ∈ (w.reaction d.unit).reactants ++ (w.reaction d.unit).products, name ∈ namesOf d.species := by
    intro name hn
    rcases mem_append.1 hn with hn | hn
    · obtain ⟨t, ht, rfl⟩ := mem_namesIn.1 hn
      exact hns t (mem_append_left _ ht)
    · obtain ⟨t, ht, rfl⟩ := mem_namesIn.1 hn
      exact hns t (mem_append_right _ ht)
  have hsh : (([w.reaction d.unit].zipIdx).mapM fun p => shapeCoefficients p.2 p.1).start s₁ =
      (.ok [w.reaction d.unit], s₁) := rfl
  have hch : (([w.reaction d.unit].zipIdx).forM fun p =>
      checkNames (namesOf d.species) p.2 p.1).start s₁ = (.ok (), s₁) := by
    have hone := checkNames_of_known hkn 0
    rw [zipIdx_singleton, List.forM, hone]
    rfl
  rw [readMechanism, readMechanismLines, Reader.start_bind_of_ok hrd, hd']
  refine (Reader.start_bind_of_ok hsh).trans ?_
  refine (Reader.start_bind_of_ok hch).trans ?_
  refine (Reader.start_bind_of_ok hc).trans ?_
  rfl

end WrittenReaction

/-- Reading gives back the reaction that was written. In any session, in a section of reactions, the
line adds just this reaction to what was read before, and a file with no other reaction gives a
mechanism with no other reaction. -/
theorem written_reaction_read (w : WrittenReaction)
    (hshort : ∀ t ∈ w.terms, t.digits.length ≤ Number.wholeDigitLimit) (horder : w.order ≤ 100)
    (hkeyword : ∀ keyword ∈ sectionKeywords, opensWith keyword w.content = false) :
    (∀ (file : List (List Char)) (d : Draft) (s : Session), d.current = some .reactions →
      (readLine file d w.line).start s = (.ok { d with
        reactions := d.reactions ++ [w.reaction d.unit]
        last := { thirdBody := decide (w.body = .term) } }, s)) ∧
    (∀ (text : String) (thermo : Option (Except Fault String)) (front back : List (List Char))
      (d : Draft) (s s₁ s' : Session) (species : List (Species Scalar)),
      Text.lines text = front ++ w.line :: back →
      (front.foldlM (readLine (Text.lines text)) {}).start s = (.ok d, s₁) →
      d.current = some .reactions → d.reactions = [] →
      (∀ raw ∈ back, openingOf raw = .ignored ∨ openingOf raw = .ending) →
      (∀ t ∈ w.terms, t.species ∈ namesOf d.species) →
      (completeSpecies (thermo.map (·.map Text.lines)) d.species).start s₁ = (.ok species, s') →
      (readMechanism text thermo).start s =
        (.ok { elements := d.elements, species, reactions := [w.reaction d.unit] }, s')) := by
  have hall : w.terms.all Term.short = true := by
    rw [all_eq_true]
    intro t ht
    exact decide_eq_true (hshort t ht)
  constructor
  · intro file d s hd
    rw [w.readLine_line horder hkeyword file hd, hall, if_pos rfl]
  · intro text thermo front back d s s₁ s' species hlines hfront hsection hfirst hback hnames hcomplete
    exact w.readMechanism_line hall horder hkeyword hlines hfront hsection hfirst hback hnames hcomplete

def spaces (n : ℕ) : Blanks := ⟨List.replicate n ' ', fun c hc => by rw [eq_of_mem_replicate hc]; decide⟩

def oneSpace : Gap := ⟨[' '], by simp, fun c hc => by rw [mem_singleton.1 hc]; decide⟩

def threeHalves : NumberText where
  text := ['1', '.', '5']
  value := 1.5
  word := by
    intro c hc
    fin_cases hc <;> decide
  reads := by rfl

def oneLetter (digits : List Char) (name : Char) (hdigits : ∀ c ∈ digits, c.isDigit = true)
    (hpositive : digits ≠ [] → 0 < Number.decimal digits) (hletter : isLetter name = true)
    (hbody : name ≠ 'm' ∧ name ≠ 'M') : Term where
  digits := digits
  name := [name]
  decimal := hdigits
  positive := hpositive
  start := hletter
  plain := by
    intro c hc
    rw [mem_singleton.1 hc]
    simp [isPlain, hletter]
  notBody := by simpa using hbody

def isomerLine : WrittenReaction where
  reactants := ⟨oneLetter [] 'A' (by simp) (by simp) (by decide) (by decide),
    [(spaces 1, spaces 0, oneLetter ['2'] 'A' (by simp) (by decide) (by decide) (by decide))],
    spaces 0, spaces 0⟩
  products := ⟨oneLetter ['0', '3'] 'B' (by simp) (by decide) (by decide) (by decide), [], spaces 1, spaces 0⟩
  body := .parenthesis
  arrow := .both
  factor := threeHalves
  exponent := threeHalves
  energy := threeHalves
  point := by decide
  indent := spaces 1
  beforeArrow := spaces 1
  afterArrow := spaces 1
  beforeFactor := oneSpace
  beforeExponent := oneSpace
  beforeEnergy := oneSpace
  ending := ⟨['\n'], fun c hc => by rw [mem_singleton.1 hc]; decide⟩

def isomerFront : List (List Char) :=
  ["SPECIES A B\n".toList, "END\n".toList, "THERMO\n".toList, "300. 1000. 5000.\n".toList] ++
    hydrogenEntry 'A' ++ hydrogenEntry 'B' ++ ["REACTIONS KELVINS\n".toList]

def isomerFile : List (List Char) := isomerFront ++ isomerLine.line :: ["END\n".toList]

theorem isomerLine_read : ∃ elements species s', (readMechanism (String.ofList isomerFile.flatten) none).start {} =
        (.ok { elements, species, reactions := [isomerLine.reaction .kelvins] }, s') ∧
      (isomerLine.reaction .kelvins).reactants = ["A"] ∧
      (isomerLine.reaction .kelvins).products = ["B"] := by
  have hlines : Text.lines (String.ofList isomerFile.flatten) = isomerFile := Text.lines_flatten (by decide +kernel)
  have hseen : ((isomerFront.foldlM (readLine isomerFile) {}).start {}).1.toOption.map (fun d =>
        (d.current, d.reactions.length, namesOf d.species, d.species.any isWeightless, d.unit)) =
      some (some .reactions, 0, ["A", "B"], false, .kelvins) := by
    decide +kernel
  obtain ⟨d, s₁, hfront, hd⟩ := Reader.exists_of_seen hseen
  simp only [Prod.mk.injEq, length_eq_zero_iff] at hd
  obtain ⟨hsection, hfirst, hnames, hweights, hunit⟩ := hd
  have hcomplete : (completeSpecies none d.species).start s₁ = (.ok d.species, s₁) := by
    rw [completeSpecies_of_weights hweights]
    rfl
  have hread := (written_reaction_read isomerLine (by decide) (by decide) (by decide +kernel)).2
    (String.ofList isomerFile.flatten) none isomerFront ["END\n".toList] d {} s₁ s₁ d.species hlines
    (by rw [hlines]; exact hfront) hsection hfirst (by decide +kernel) (by rw [hnames]; decide +kernel)
    hcomplete
  rw [hunit] at hread
  exact ⟨d.elements, d.species, s₁, hread, by decide +kernel, by decide +kernel⟩

/-- The digits of one with so many zeros before it that they are too many. -/
def longOne : List Char := List.replicate Number.wholeDigitLimit '0' ++ ['1']

lemma decimal_zeros_one (n : ℕ) : Number.decimal (List.replicate n '0' ++ ['1']) = 1 := by
  induction n with
  | zero => rfl
  | succ n ih => exact ih

/-- The line `A=B 1.5 1.5 1.5`, with too many digits before the product. -/
def longLine : WrittenReaction := { isomerLine with
    reactants := ⟨oneLetter [] 'A' (by simp) (by simp) (by decide) (by decide), [], spaces 0, spaces 0⟩
    products := ⟨oneLetter longOne 'B' (by
        intro c hc
        rcases mem_append.1 hc with hc | hc
        · rw [eq_of_mem_replicate hc]
          decide
        · rw [mem_singleton.1 hc]
          decide)
      (fun _ => by rw [longOne, decimal_zeros_one]; decide) (by decide) (by decide), [],
      spaces 0, spaces 0⟩
    body := .absent
    arrow := .equal }

/-- A coefficient of one can be written with so many digits that the line is refused. -/
theorem longLine_refused :
    longLine.order ≤ 100 ∧ (∀ keyword ∈ sectionKeywords, opensWith keyword longLine.content = false) ∧
      longLine.products.terms.map Term.coefficient = [1] ∧
      ∀ (file : List (List Char)) (d : Draft) (s : Session), d.current = some .reactions →
        (readLine file d longLine.line).start s = (.error .notNumeric, s) := by
  have horder : longLine.order ≤ 100 := by decide
  have hkeyword : ∀ keyword ∈ sectionKeywords, opensWith keyword longLine.content = false := by
    decide +kernel
  have hlong : longLine.terms.all Term.short = false := by
    have hlength : ¬ longOne.length ≤ Number.wholeDigitLimit := by
      rw [longOne, length_append, length_replicate, length_singleton]
      omega
    rw [all_eq_false]
    refine ⟨longLine.products.first, by simp [WrittenReaction.terms, WrittenSide.terms], ?_⟩
    exact ne_true_of_eq_false (decide_eq_false hlength)
  have hone : longLine.products.first.coefficient = 1 := by
    have hne : longOne ≠ [] := by simp [longOne]
    exact (if_neg hne).trans (decimal_zeros_one _)
  refine ⟨horder, hkeyword, congrArg (fun n => [n]) hone, ?_⟩
  · intro file d s hd
    rw [longLine.readLine_line horder hkeyword file hd, hlong]
    rfl

end Kinetics.Reading
