import Kinetics.Proofs.WrittenSides
/-!
# Plus signs in names

A side of an equation is cut at all plus signs, also at those that belong to names. An empty piece gives
its sign back to the name before it, and two pieces with an open and a closed parenthesis at the cut are one
name again. So names that hold `(+)` or end with a plus sign are found again in a compact side, and no text
whose parentheses are closed keeps the reader from coming to an end (`sides_come_apart`).
-/

open List

namespace Kinetics.Reading

open Text

/-! ## The turns of the loops -/

/-- A loop that starts in `a` ends in `b`; `next` gives the state after one more turn, if there is one. -/
def Stops {α : Type} (next : α → Option α) (a b : α) : Prop :=
  Relation.ReflTransGen (fun x y => next x = some y) a b ∧ next b = none

/-- The text with which the search for a collider goes on: the same one if a parenthesis is not closed. -/
def scanNext (rest : List Char) : Option (List Char) := do
  let p ← firstParenthesis rest
  match strip p.content with
  | [] => none
  | c :: more => if c = '+' && !more.isEmpty then none else some (rest.drop p.next)

/-- The pieces after the first empty one gave its sign to the one before it. -/
def mergeNext (pieces : List (List Char)) : Option (List (List Char)) :=
  if pieces.contains [] then
    let i := pieces.idxOf []
    some ((pieces.modify (if i = 0 then pieces.length - 1 else i - 1) (· ++ ['+'])).eraseIdx i)
  else none

namespace Stops
variable {α : Type} {next : α → Option α} {a b c : α}

lemma cons (hb : next a = some b) (h : Stops next b c) : Stops next a c := ⟨.head hb h.1, h.2⟩

lemma tail (h : Stops next a c) (hb : next a = some b) : Stops next b c := by
  obtain rfl | ⟨b', hb', hr⟩ := h.1.cases_head
  · cases hb.symm.trans h.2
  · cases hb.symm.trans hb'
    exact ⟨hr, h.2⟩

lemma not_of_stuck (ha : next a = some a) : ¬Stops next a b := by
  intro h
  obtain ⟨hr, hn⟩ := h
  have hb : b = a := by
    clear hn
    induction hr with
    | refl => rfl
    | tail _ hc ih => exact (Option.some.inj (ha.symm.trans (ih ▸ hc))).symm
  cases ha.symm.trans (hb ▸ hn)

end Stops

/-- The search comes to no end just where it is stuck at a parenthesis that is not closed. -/
lemma findCollider_stops (side rest : List Char) :
    (∃ last, Stops scanNext rest last) ↔ findCollider side rest ≠ .error .unacceptable := by
  fun_induction findCollider side rest with
  | case1 rest hp => exact ⟨by simp, fun _ => ⟨rest, .refl, by simp [scanNext, hp]⟩⟩
  | case2 rest p hp hs => exact ⟨by simp, fun _ => ⟨rest, .refl, by simp [scanNext, hp, hs]⟩⟩
  | case3 rest p hp c more hs hc => exact ⟨by simp, fun _ => ⟨rest, .refl, by simpa [scanNext, hp, hs] using hc⟩⟩
  | case4 rest p hp c more hs hc h ih =>
    have hn : scanNext rest = some (rest.drop p.next) := by simpa [scanNext, hp, hs] using hc
    rw [← ih]
    exact ⟨Exists.imp fun _ hl => hl.tail hn, Exists.imp fun _ hl => hl.cons hn⟩
  | case5 rest p hp c more hs hc h =>
    have hr : rest ≠ [] := by
      rintro rfl
      cases hp
    have h0 : p.next = 0 := by simpa [hr] using h
    have hn : scanNext rest = some rest := by simpa [scanNext, hp, hs, h0] using hc
    exact ⟨fun hl => hl.elim fun _ hl => absurd hl (Stops.not_of_stuck hn), fun hne => absurd rfl hne⟩

lemma mergeEmpty_stops (pieces : List (List Char)) : Stops mergeNext pieces (mergeEmpty pieces) := by
  fun_induction mergeEmpty pieces with
  | case1 pieces h i before ih => exact ih.cons (if_pos (contains_iff_mem.2 h))
  | case2 pieces h => exact ⟨.refl, if_neg (mt contains_iff_mem.1 h)⟩

/-- Every open parenthesis is closed later in the text. -/
def Closed (s : List Char) : Prop := ∀ t ∈ s.tails, t.head? = some '(' → ')' ∈ t

variable {rest : List Char}

lemma firstParenthesis_next (h : Closed rest) {p : Parenthesis} (hp : firstParenthesis rest = some p) :
    0 < p.next := by
  unfold firstParenthesis at hp
  split at hp
  · cases hp
  · next i hi =>
    have hs : _ <:+ rest := ⟨_, (eq_of_find? hi).symm⟩
    have hc : ')' ∈ rest := hs.subset (h _ ((mem_tails _ _).2 hs) rfl)
    split at hp
    · cases hp
      exact Nat.succ_pos _
    · next hn => exact absurd ((singleton_infix_iff _ _).2 hc) (find?_eq_none.1 hn)

lemma findCollider_of_closed (h : Closed rest) (side : List Char) :
    findCollider side rest ≠ .error .unacceptable := by
  fun_induction findCollider side rest with
  | case1 | case2 | case3 =>
    intro h'
    cases h'
  | case4 rest p hp c more hs hc hn ih =>
    exact ih fun t ht => h t ((mem_tails _ _).2 (((mem_tails _ _).1 ht).trans (drop_suffix _ _)))
  | case5 rest p hp c more hs hc hn =>
    refine absurd ⟨firstParenthesis_next h hp, ?_⟩ hn
    rintro rfl
    cases hp

/-! ## Names with signs -/

/-- A name of letters and digits that holds `(+)` if there is something behind that, and has a sign at its end if
it is charged. -/
structure SignedName where
  first : List Char
  behind : Option (List Char)
  charged : Bool
  plain : Plain first
  plain_behind : ∀ more ∈ behind, ∀ c ∈ more, isPlain c = true

namespace SignedName
variable (n : SignedName)

def sign : List Char := if n.charged then ['+'] else []

def text : List Char :=
  n.first ++ (match n.behind with | none => [] | some more => '(' :: '+' :: ')' :: more) ++ n.sign

/-- The halves of a name that holds `(+)`, or the name itself. -/
def halves : List (List Char) :=
  match n.behind with
  | none => [n.first ++ n.sign]
  | some more => [n.first ++ ['('], ')' :: more ++ n.sign]

end SignedName

/-! ## Cutting and joining -/

variable {front : List (List Char)}

lemma cons_intercalate {words : List (List Char)} (h : words ≠ []) :
    '+' :: ['+'].intercalate words = words.flatMap ('+' :: ·) := by
  induction words with
  | nil => exact absurd rfl h
  | cons word words ih =>
    cases words with
    | nil => simp
    | cons next words => simpa using ih (cons_ne_nil _ _)

lemma intercalate_of_flatMap {words : List (List Char)} {s : List Char} (h : words.flatMap ('+' :: ·) = '+' :: s) :
    ['+'].intercalate words = s := by
  have hne : words ≠ [] := by
    rintro rfl
    cases h
  exact cons.inj ((cons_intercalate hne).trans h) |>.2

lemma flatMap_splitAtChar (s : List Char) : (splitAtChar '+' s).flatMap ('+' :: ·) = '+' :: s := by
  induction s with
  | nil => rfl
  | cons c s ih =>
    unfold splitAtChar
    split
    · next hc => simp [ih, hc]
    · split
      · next h => simp [h] at ih
      · next h => simpa [h] using ih

/-- A sign that is given back stands where it was cut. -/
lemma flatMap_mergeEmpty (pieces : List (List Char)) (h : pieces.head? ≠ some []) :
    (mergeEmpty pieces).flatMap ('+' :: ·) = pieces.flatMap ('+' :: ·) := by
  by_cases hm : [] ∈ pieces
  · obtain ⟨before, rest, rfl, hb⟩ := eq_append_cons_of_mem hm
    obtain rfl | ⟨front, piece, rfl⟩ := eq_nil_or_concat' before
    · exact absurd rfl h
    · rw [mem_append, not_or, mem_singleton] at hb
      rw [append_assoc, singleton_append, mergeEmpty_step hb.1 (Ne.symm hb.2),
        flatMap_mergeEmpty (front ++ (piece ++ ['+']) :: rest)]
      · simp
      · cases front <;> simp_all
  · rw [mergeEmpty_of_not_mem hm]
termination_by pieces.length

/-- Two halves are put together if the first one does not stand earlier in the list. -/
lemma joinNext_halves {p q : List Char} (hf : p ∉ front) (hc : isCut p q = true) (rest : List (List Char)) :
    joinNext (front ++ p :: q :: rest) p = front ++ (p ++ '+' :: q) :: rest := by
  have hi : (front ++ p :: q :: rest).idxOf p = front.length := by
    rw [idxOf_append_of_notMem hf, idxOf_cons_self, Nat.add_zero]
  have hq : (front ++ p :: q :: rest)[front.length + 1]? = some q := by simp
  unfold joinNext
  simp only [hi, hq, hc, if_true]
  simp [eraseIdx_append]

lemma joinHalves_cons (front rest : List (List Char)) (p : List Char) :
    joinHalves front.length (front ++ p :: rest) = joinHalves (front.length + 1) (joinNext (front ++ p :: rest) p) := by
  rw [joinHalves, dif_pos (by simp)]
  simp

lemma exists_intercalate_cons (word : List Char) (words : List (List Char)) : ∃ v, (v = [] ∨ v = ['+']) ∧
    ['+'].intercalate (word :: words) = word ++ v ++ ['+'].intercalate words := by
  cases words with
  | nil => exact ⟨[], .inl rfl, by simp⟩
  | cons next words => exact ⟨['+'], .inr rfl, intercalate_cons_cons⟩

namespace SignedName
variable (n : SignedName) (names : List SignedName)

lemma sign_cases : n.sign = [] ∨ n.sign = ['+'] := by
  unfold sign
  cases n.charged <;> simp

lemma text_cases : (n.text = n.first ++ n.sign ∧ n.halves = [n.first ++ n.sign]) ∨ ∃ more,
    (∀ c ∈ more, isPlain c = true) ∧ n.text = n.first ++ '(' :: '+' :: ')' :: (more ++ n.sign) ∧
      n.halves = [n.first ++ ['('], ')' :: more ++ n.sign] := by
  unfold text halves
  cases hb : n.behind with
  | none => simp
  | some more => exact .inr ⟨more, n.plain_behind more hb, by simp, rfl⟩

lemma not_mem_of_plain {w : List Char} (hw : ∀ c ∈ w, isPlain c = true) : '+' ∉ w ∧ '(' ∉ w ∧ ')' ∉ w :=
  ⟨fun h => absurd (hw _ h) (by decide), fun h => absurd (hw _ h) (by decide), fun h => absurd (hw _ h) (by decide)⟩

lemma getLast?_text : n.text.getLast? ≠ some '(' := by
  have hl : ∀ start w, w ≠ [] → '(' ∉ w → (start ++ (w ++ n.sign)).getLast? ≠ some '(' := by
    intro start w hw ho h
    rw [getLast?_append_of_ne_nil _ (by simp [hw])] at h
    obtain hs | hs := n.sign_cases <;> simpa [hs, ho] using mem_of_getLast? h
  obtain ⟨ht, -⟩ | ⟨more, hm, ht, -⟩ := n.text_cases
  · rw [ht]
    exact hl [] _ n.plain.ne_nil (not_mem_of_plain n.plain.plain).2.1
  · rw [ht]
    simpa using hl (n.first ++ ['(', '+']) (')' :: more) (by simp) (by simp [not_mem_of_plain hm])

lemma solid : ∀ piece ∈ n.halves, Solid piece := by
  have hs : ∀ w, w ≠ [] → '+' ∉ w → Solid (w ++ n.sign) := by
    intro w hw hp
    obtain h | h := n.sign_cases
    · exact ⟨w, hw, hp, .inl (by simp [h])⟩
    · exact ⟨w, hw, hp, .inr (by simp [h])⟩
  have hp := (not_mem_of_plain n.plain.plain).1
  obtain ⟨-, hh⟩ | ⟨more, hm, -, hh⟩ := n.text_cases
  · simpa [hh] using hs _ n.plain.ne_nil hp
  · have hb : Solid (n.first ++ ['(']) := ⟨_, by simp, by simp [hp], .inl rfl⟩
    simpa [hh] using And.intro hb (hs (')' :: more) (by simp) (by simp [not_mem_of_plain hm]))

/-- Joined by signs, the halves give the texts of the names. -/
lemma flatMap_halves (hne : names ≠ []) :
    (names.flatMap halves).flatMap ('+' :: ·) = '+' :: ['+'].intercalate (names.map text) := by
  have hh : ∀ n : SignedName, n.halves.flatMap ('+' :: ·) = '+' :: n.text := fun n => by
    obtain ⟨ht, hh⟩ | ⟨more, -, ht, hh⟩ := n.text_cases <;> simp [ht, hh]
  rw [cons_intercalate (by simpa using hne), flatMap_assoc, flatMap_map]
  simp only [hh]

/-- The halves are put together name by name: in front stand whole names, none of which is a half. -/
lemma joinHalves_halves (hf : ∀ w ∈ front, w.getLast? ≠ some '(') :
    joinHalves front.length (front ++ names.flatMap halves) = front ++ names.map text := by
  induction names generalizing front with
  | nil => simp [joinHalves]
  | cons n names ih =>
    have hl := n.getLast?_text
    have hr := @ih (front ++ [n.text]) (by simpa [or_imp, forall_and] using And.intro hf hl)
    rw [length_append, length_singleton, append_assoc, append_assoc, singleton_append, singleton_append] at hr
    rw [map_cons, ← hr, flatMap_cons]
    obtain ⟨ht, hh⟩ | ⟨more, -, ht, hh⟩ := n.text_cases
    · rw [hh, ← ht, singleton_append, joinHalves_cons, joinNext_of_no_cut hl]
    · have hn : n.first ++ ['('] ∉ front := fun h => hf _ h (by simp)
      rw [hh, cons_append, singleton_append, joinHalves_cons, joinNext_halves hn (by simp [isCut])]
      simp [ht]

lemma findCollider_texts {u : List Char} (side : List Char) (ho : '(' ∉ u) (hc : ')' ∉ u) :
    findCollider side (u ++ ['+'].intercalate (names.map text)) = .ok none := by
  induction names generalizing u with
  | nil => exact WrittenSide.findCollider_of_not_mem (by simpa using ho) side
  | cons n names ih =>
    -- the text up to the next name has no parentheses but those of `(+)`
    obtain ⟨v, hv, hj⟩ := exists_intercalate_cons n.text (names.map text)
    have hvp : '(' ∉ n.sign ++ v ∧ ')' ∉ n.sign ++ v := by
      obtain hs | hs := n.sign_cases <;> obtain rfl | rfl := hv <;> simp [hs]
    have hfirst := not_mem_of_plain n.plain.plain
    rw [map_cons, hj]
    obtain ⟨ht, -⟩ | ⟨more, hm, ht, -⟩ := n.text_cases
    · simpa [ht] using ih (u := u ++ (n.first ++ (n.sign ++ v))) (by simp_all) (by simp_all)
    · have hmore := not_mem_of_plain hm
      have hr := WrittenSide.findCollider_pass side (s := u ++ n.first) (by simp_all) (by simp_all)
        (more ++ (n.sign ++ v) ++ ['+'].intercalate (names.map text))
      rw [ih (by simp_all) (by simp_all)] at hr
      simpa [ht] using hr

end SignedName

/-- Names with plus signs in them and at their ends are found again in a compact side. In every text whose
parentheses are closed the search for a collider and the loop that gives signs back come to an end, and the
pieces are the text again if it does not begin with a sign. -/
theorem sides_come_apart : (∀ names : List SignedName, names ≠ [] →
      let side := ['+'].intercalate (names.map SignedName.text)
      takeCollider side = .ok (side, none) ∧ termTexts side = names.map SignedName.text) ∧
    ∀ side, Closed side → (∃ last, Stops scanNext side last) ∧
      Stops mergeNext (splitAtChar '+' side) (mergeEmpty (splitAtChar '+' side)) ∧
      [] ∉ mergeEmpty (splitAtChar '+' side) ∧
      (side.head? ≠ some '+' → ['+'].intercalate (mergeEmpty (splitAtChar '+' side)) = side) := by
  refine ⟨fun names hne => ⟨?_, ?_⟩, fun side hs => ?_⟩
  · rw [takeCollider, ← nil_append (['+'].intercalate _), SignedName.findCollider_texts _ _ not_mem_nil not_mem_nil]
    rfl
  · have hm := mergeEmpty_solid not_mem_nil (forall_mem_flatMap.2 fun n _ => n.solid)
      (SignedName.flatMap_halves names hne)
    rw [nil_append, nil_append] at hm
    rw [termTexts, hm]
    exact SignedName.joinHalves_halves names (forall_mem_nil _)
  · have hm := mergeEmpty_stops (splitAtChar '+' side)
    refine ⟨(findCollider_stops side side).2 (findCollider_of_closed hs side), hm, fun hn => ?_, fun hh => ?_⟩
    · simpa [mergeNext, hn] using hm.2
    · cases side with
      | nil => decide +kernel
      | cons c side =>
        have hp : (splitAtChar '+' (c :: side)).head? ≠ some [] := by
          unfold splitAtChar
          rw [if_neg (by simpa using hh)]
          split <;> simp
        exact intercalate_of_flatMap ((flatMap_mergeEmpty _ hp).trans (flatMap_splitAtChar _))

def bridgedIon : SignedName where
  first := ['N']
  behind := some ['O']
  charged := true
  plain := ⟨cons_ne_nil _ _, all_eq_true.1 (by decide)⟩
  plain_behind := by simpa using (by decide : isPlain 'O' = true)

theorem sides_come_apart_twice : [bridgedIon, bridgedIon] ≠ [] ∧
    termTexts "N(+)O++N(+)O+".toList = ["N(+)O+".toList, "N(+)O+".toList] ∧
    Closed "+A+(B)".toList ∧ ∃ last, Stops scanNext "+A+(B)".toList last := by
  have hc : Closed "+A+(B)".toList := by
    unfold Closed
    decide
  exact ⟨cons_ne_nil _ _, (sides_come_apart.1 [bridgedIon, bridgedIon] (cons_ne_nil _ _)).2, hc,
    (sides_come_apart.2 _ hc).1⟩

end Kinetics.Reading
