import Kinetics.Proofs.WrittenReactions
/-!
# Names of ions in equations

The name of an ion ends with a plus sign, which is also the sign between the terms of an equation.
The reader cuts a side at all plus signs and gives one back to a name if nothing stands between it and
the next one. So an ion is read as it is written unless blanks stand behind it before a further term;
then it is read as a name without the sign and an empty name (`ion_names`).
-/

open List

namespace Kinetics.Reading

open Text

/-- The name of a species, of an ion if it is charged, which is not that of a third body. -/
structure IonName where
  name : List Char
  charged : Bool
  start : name.head?.any isLetter = true
  plain : ∀ c ∈ name, isPlain c = true
  notBody : charged = false → isAnyBody name = false

namespace IonName

def text (i : IonName) : List Char := i.name ++ if i.charged then ['+'] else []

def species (i : IonName) : String := String.ofList i.text

lemma plain_name (i : IonName) : Plain i.name := by
  refine ⟨fun h => ?_, i.plain⟩
  have := i.start
  rw [h] at this
  cases this

lemma ionic (i : IonName) : Ionic i.text := by
  refine ⟨i.name, i.plain_name, ?_⟩
  unfold text
  cases i.charged <;> simp

lemma getLast?_text (i : IonName) : i.text.getLast? = some '+' ↔ i.charged = true := by
  unfold text
  cases i.charged with
  | true => simp
  | false =>
    simp only [Bool.false_eq_true, if_false, append_nil, iff_false]
    exact fun h => i.plain_name.not_mem (by decide) (mem_of_getLast? h)

lemma isAnyBody_text (i : IonName) : isAnyBody i.text = false := by
  cases hc : i.charged with
  | false => simpa [text, hc] using i.notBody hc
  | true =>
    have hl := i.getLast?_text.2 hc
    rw [isAnyBody, beq_eq_false_iff_ne]
    intro h
    obtain h | h := eq_m_of_lower h <;> rw [h] at hl <;> cases hl

end IonName

/-! ## Listing names -/

/-- The words of a side that are no third bodies, each once. -/
def listed (words : List (List Char)) : List String := ((words.filter (!isAnyBody ·)).map String.ofList).eraseDups

/-- A word without coefficient and without blanks at its ends. -/
def Bare (word : List Char) : Prop := word.head?.any isDigit = false ∧ strip word = word

lemma addWords_listed {words : List (List Char)} (h : ∀ word ∈ words, Bare word) :
    ∃ side, words.foldlM addWord {} = .ok side ∧ side.names = listed words := by
  induction words using List.reverseRecOn with
  | nil => exact ⟨{}, rfl, rfl⟩
  | append_singleton words word ih =>
    rw [forall_mem_append, forall_mem_singleton] at h
    obtain ⟨side, hs, hn⟩ := ih h.1
    have hw : addWord side word = .ok (side.add (.int 1) word) := by
      simp [addWord, readTerm, h.2.1, h.2.2, pure_ok]
    refine ⟨side.add (.int 1) word, by rw [foldlM_append, hs, ok_bind, foldlM_cons, hw]; rfl, ?_⟩
    unfold listed at hn ⊢
    unfold Side.add
    rw [filter_append, map_append]
    cases hb : isAnyBody word with
    | true => simpa [hb] using hn
    | false =>
      rw [filter_cons_of_pos (by simp [hb]), filter_nil, map_singleton, eraseDups_concat]
      rw [if_neg Bool.false_ne_true]
      dsimp only
      split
      · next i hi =>
        have hm := isSome_idxOf?.1 (Option.isSome_of_eq_some hi)
        rw [hn, mem_eraseDups] at hm
        rw [if_pos hm, ← hn]
      · next hi =>
        have hnw := List.idxOf?_eq_none_iff.1 hi
        rw [hn, mem_eraseDups] at hnw
        rw [if_neg hnw, ← hn]

/-! ## Sides -/

/-- A side of an equation: names with the blanks before and after the plus signs between them. -/
structure IonSide where
  first : IonName
  more : List (Blanks × Blanks × IonName)

namespace IonSide

def text (s : IonSide) : List Char := joinWords s.first.text (s.more.map fun link => (link.1, link.2.1, link.2.2.text))

def names (s : IonSide) : List String := (s.first :: s.more.map (·.2.2)).map IonName.species

/-- No blanks stand behind an ion before a further term. -/
def tightFrom : IonName → List (Blanks × Blanks × IonName) → Prop
  | _, [] => True
  | i, link :: rest => (i.charged = true → link.1.1 = []) ∧ tightFrom link.2.2 rest

def Tight (s : IonSide) : Prop := tightFrom s.first s.more

end IonSide

lemma IonName.bare (i : IonName) : Bare i.name ∧ Bare i.text := by
  have hd : ∀ s : List Char, (i.name ++ s).head?.any isDigit = false := by
    intro s
    obtain ⟨c, rest, hn⟩ := exists_cons_of_ne_nil i.plain_name.ne_nil
    have hc : isLetter c = true := by simpa [hn] using i.start
    simp [hn, isDigit_eq_false_of_isLetter hc]
  exact ⟨⟨by simpa using hd [], i.plain_name.firm.strip⟩, hd _, i.ionic.firm.strip⟩

lemma readAs_ion (i : IonName) (v : Blanks) : (∀ word ∈ readAs i.text v, Bare word) ∧
    ((i.charged = true → v.1 = []) → readAs i.text v = [i.text]) ∧
    (¬(i.charged = true → v.1 = []) → [] ∈ readAs i.text v) := by
  unfold readAs
  simp only [i.getLast?_text]
  split
  · next h =>
    have hn : i.text.dropLast = i.name := by simp [IonName.text, h.1]
    rw [hn]
    refine ⟨?_, fun hi => absurd (hi h.1) h.2, fun _ => by simp⟩
    simpa using ⟨i.bare.1, show Bare [] from ⟨rfl, rfl⟩⟩
  · next h => exact ⟨by simpa using i.bare.2, fun _ => rfl, fun hi => absurd (fun hc => not_not.1 fun hv => h ⟨hc, hv⟩) hi⟩

/-- The names as which a side is read are its own just if it is tight; otherwise one of them is empty. -/
lemma readWords_ions (i : IonName) (more : List (Blanks × Blanks × IonName)) :
    let words := readWords i.text (more.map fun link => (link.1, link.2.1, link.2.2.text)) ⟨[], by simp⟩
    (∀ word ∈ words, Bare word) ∧ (IonSide.tightFrom i more → words = (i :: more.map (·.2.2)).map IonName.text) ∧
      (¬IonSide.tightFrom i more → [] ∈ words) := by
  induction more generalizing i with
  | nil =>
    obtain ⟨hb, hs, -⟩ := readAs_ion i ⟨[], by simp⟩
    exact ⟨hb, fun _ => hs fun _ => rfl, fun h => absurd trivial h⟩
  | cons link rest ih =>
    obtain ⟨hb, hs, he⟩ := readAs_ion i link.1
    obtain ⟨hb', hs', he'⟩ := ih link.2.2
    refine ⟨forall_mem_append.2 ⟨hb, hb'⟩, fun h => ?_, fun h => ?_⟩
    · rw [map_cons, readWords, hs h.1, hs' h.2]
      rfl
    · obtain h | h := not_and_or.1 h
      · exact mem_append_left _ (he h)
      · exact mem_append_right _ (he' h)

namespace IonSide
variable (s : IonSide)

lemma ionic_links : ∀ link ∈ s.more.map fun link => (link.1, link.2.1, link.2.2.text), Ionic link.2.2 :=
  forall_mem_map.2 fun link _ => link.2.2.ionic

lemma readTerms_text : ∃ side, readTerms s.text = .ok side ∧ (side.names = s.names.eraseDups ↔ s.Tight) := by
  have hr := readTerms_joinWords s.first.ionic s.ionic_links ⟨[], by simp⟩
  rw [append_nil] at hr
  obtain ⟨hb, hs, he⟩ := readWords_ions s.first s.more
  obtain ⟨side, hsd, hn⟩ := addWords_listed hb
  refine ⟨side, hr.trans hsd, ?_⟩
  rw [hn]
  constructor
  · -- an empty name is none of those that are written
    intro heq
    by_contra ht
    have hm : "" ∈ listed _ := mem_eraseDups.2 (mem_map_of_mem (mem_filter.2 ⟨he ht, by decide⟩))
    rw [heq, mem_eraseDups] at hm
    obtain ⟨i, -, hi⟩ := mem_map.1 hm
    exact i.ionic.firm.ne_nil (String.ofList_eq_empty_iff.1 hi)
  · intro ht
    rw [hs ht, listed, names, filter_eq_self.2, map_map]
    · rfl
    · exact forall_mem_map.2 fun i _ => by rw [i.isAnyBody_text]; rfl

lemma not_mem_text {c : Char} (hp : isPlain c = false) (hb : isBlank c = false) (hpl : c ≠ '+') :
    c ∉ s.text := not_mem_joinWords s.first.ionic s.ionic_links hp hb hpl

end IonSide

/-- Reading an equation with ions gives its names just if no blanks stand behind an ion before a further term. -/
theorem ion_names (left right : IonSide) (arrow : Arrow) (u v : Blanks) :
    ∃ e, readEquation (left.text ++ u.1 ++ (arrow.text ++ (v.1 ++ right.text))) = .ok e ∧
      (e.reactants.names = left.names.eraseDups ↔ left.Tight) ∧
      (e.products.names = right.names.eraseDups ↔ right.Tight) := by
  have harrow : ∀ s : IonSide, ∀ c ∈ ['<', '=', '>'], c ∉ s.text := by
    intro s c hc
    simp only [mem_cons, not_mem_nil, or_false] at hc
    rcases hc with rfl | rfl | rfl <;> exact s.not_mem_text (by decide) (by decide) (by decide)
  have hcollider : ∀ s : IonSide, takeCollider s.text = .ok (s.text, none) := fun s => by
    rw [takeCollider, WrittenSide.findCollider_of_not_mem (s.not_mem_text (by decide) (by decide) (by decide))]
    rfl
  have hfirm : ∀ s : IonSide, Firm s.text := fun s => firm_joinWords s.first.ionic s.ionic_links
  obtain ⟨reactants, hreactants, hleft⟩ := left.readTerms_text
  obtain ⟨products, hproducts, hright⟩ := right.readTerms_text
  refine ⟨⟨arrow.reversible, reactants, products, false, none⟩, ?_, hleft, hright⟩
  unfold readEquation
  rw [splitArrow_written (hfirm left) (hfirm right) (harrow left) (harrow right), ok_bind]
  dsimp only
  rw [hcollider, ok_bind]
  dsimp only
  rw [hreactants, ok_bind, hcollider, ok_bind]
  dsimp only
  rw [hproducts]
  rfl

example : (readEquation "H+ + H = H2+".toList).toOption.map (·.reactants.names) = some ["H", ""] := by decide +kernel

end Kinetics.Reading
