import Kinetics.Proofs.ReverseDirections
/-!
# Entries of thermodynamic databases

A database is a line with the word `thermo`, a line of common temperatures, entries of four lines
with fixed columns, and a line that ends it. `Decoded` says what an entry makes of a species, column
by column. Reading a database gives each species what its first entry says and leaves the species
without an entry alone (`thermo_entries`).
-/

open List

namespace Kinetics.Reading

open Text

/-! ## Fixed columns -/

section Pieces
variable {n : ℕ}

lemma slice_drop (s : List Char) (k i j : ℕ) : slice (s.drop k) i j = slice s (k + i) (k + j) := by
  unfold slice
  rw [take_drop, drop_drop]

lemma slice_slice (s : List Char) {i j a b : ℕ} (h : a + j ≤ b) :
    slice (slice s a b) i j = slice s (a + i) (a + j) := by
  unfold slice
  rw [take_drop, take_take, drop_drop, Nat.min_eq_left h]

variable {s : List Char}

lemma slice_eq_nil {i : ℕ} (h : s.length ≤ i) (j : ℕ) : slice s i j = [] := by
  apply drop_eq_nil_of_le
  rw [length_take]
  omega

lemma getElem?_pieces (hn : 0 < n) (s : List Char) (i : ℕ) :
    (pieces n s)[i]? = if n * i < s.length then some (slice s (n * i) (n * i + n)) else none := by
  induction i generalizing s with
  | zero =>
    rw [pieces]
    split_ifs with h hl hl <;> grind [slice]
  | succ i ih =>
    rw [pieces]
    split_ifs with h hl hl
    · grind
    · rfl
    · rw [List.getElem?_cons_succ, ih, if_pos (by grind), slice_drop]
      congr 2 <;> ring
    · rw [List.getElem?_cons_succ, ih, if_neg (by grind)]

/-- The pieces of a text are its columns, without those beyond its end. -/
lemma pieces_eq_filter (hn : 0 < n) (k : ℕ) (h : s.length ≤ n * k) : pieces n s =
      ((List.range k).map fun i => slice s (n * i) (n * i + n)).filter fun p => !p.isEmpty := by
  induction k generalizing s with
  | zero => grind [pieces]
  | succ k ih =>
    have hr : (s.drop n).length ≤ n * k := by
      grind
    have hsh : (fun i => slice s (n * (i + 1)) (n * (i + 1) + n)) = fun i => slice (s.drop n) (n * i) (n * i + n) := by
      funext i
      rw [slice_drop]
      congr 1 <;> ring
    rw [range_succ_eq_map, map_cons, map_map, filter_cons, pieces]
    rw [show ((fun i => slice s (n * i) (n * i + n)) ∘ Nat.succ) =
      fun i => slice s (n * (i + 1)) (n * (i + 1) + n) from rfl, hsh]
    by_cases hs : s = []
    · subst hs
      simp [slice]
    · rw [dif_neg (by grind), ih hr, if_pos (by simp [slice, hs, hn.ne'])]
      simp [slice]

end Pieces

/-! ## What an entry says -/

def Numeral (text : List Char) (x : Scalar) : Prop := ∃ value, Number.readReal text = .ok value ∧ x = .float value

/-- Atoms of one element. -/
structure Atoms where
  element : String
  count : ℤ
  /-- The weight of one atom. -/
  weight : Scalar

/-- What a field of five columns says: nothing if its first two columns are blank or have a zero, and
otherwise an element and its number of atoms. -/
inductive FieldAtoms (w : Weights Scalar) (field : List Char) : List Atoms → Prop
  | unused (h : strip (field.take 2) = [] ∨ strip (field.take 2) = ['0']) : FieldAtoms w field []
  | used {a : Atoms} {x : Float} (hblank : strip (field.take 2) ≠ [])
      (hzero : strip (field.take 2) ≠ ['0'])
      (helement : a.element = String.ofList (strip (field.take 2)))
      (hnumber : Number.readReal (strip (field.drop 2)) = .ok x) (hcount : truncate x = .ok a.count)
      (hweight : w.get? (String.ofList (lower (strip (field.take 2)))) = some a.weight) :
      FieldAtoms w field [a]

def addAtoms (s : Species Scalar) (atoms : List Atoms) : Species Scalar := { s with
    composition := s.composition ++ atoms.map fun a => (a.element, .int a.count)
    weight := atoms.foldl (fun weight a => weight + .int a.count * a.weight) s.weight }

/-- Four lines, the first of which is not blank, not a comment and not the end of the database. -/
structure Entry where
  first : List Char
  second : List Char
  third : List Char
  fourth : List Char
  shown : ∃ c ∈ (stripLeft first).head?, c ≠ '!'
  continued : lower (first.take 3) ≠ "end".toList

namespace Entry

def lines (e : Entry) : List (List Char) := [e.first, e.second, e.third, e.fourth]

def name (e : Entry) : String := String.ofList (entryName e.first)

/-- The four fields of elements, in columns 24 to 44. -/
def fields (e : Entry) : List (List Char) := (List.range 4).map fun i => slice e.first (24 + 5 * i) (24 + (5 * i + 5))

/-- The columns of a coefficient, counted through the second, third and fourth line. -/
def coefficient (e : Entry) (k : ℕ) : List Char :=
  slice (e.lines.getD (k / 5 + 1) []) (15 * (k % 5)) (15 * (k % 5) + 15)

end Entry

/-- What an entry makes of a species. -/
structure Decoded (w : Weights Scalar) (common : List Float) (e : Entry) (s s' : Species Scalar) :
    Prop where
  name : s'.name = s.name
  atoms : ∃ groups, List.Forall₂ (FieldAtoms w) e.fields groups ∧
    s'.composition = (addAtoms s groups.flatten).composition ∧
    s'.weight = (addAtoms s groups.flatten).weight
  /-- The midpoint comes last in the entry, or is the second of the common temperatures. -/
  temperatures : ∃ own lowest midpoint highest, readNumbers (slice e.first 45 74) = .ok own ∧
    own[0]? = some lowest ∧ own[1]? = some highest ∧
    (if own.length = 3 then own[2]? else common[1]?) = some midpoint ∧
    s'.range = [.float lowest, .float midpoint, .float highest]
  coefficients : List.Forall₂ Numeral ((List.range 14).map e.coefficient) (s'.high.toList ++ s'.low.toList)

variable {line : List Char}

section Decoding
variable {w : Weights Scalar} {common : List Float} {s s' : Species Scalar}

lemma addElement_eq_ok {field : List Char} :
    addElement w s field = .ok s' ↔ ∃ atoms, FieldAtoms w field atoms ∧ s' = addAtoms s atoms := by
  have hnil : addAtoms s [] = s := by simp [addAtoms]
  unfold addElement
  dsimp only
  split_ifs with hu
  · rw [Bool.or_eq_true, List.isEmpty_iff, beq_iff_eq] at hu
    constructor
    · intro h
      exact ⟨[], .unused hu, by rw [hnil, pure_eq_ok.1 h]⟩
    · rintro ⟨atoms, ha, rfl⟩
      cases ha with
      | unused => rw [hnil, pure_ok]
      | used hb hzero => exact absurd hu (not_or.2 ⟨hb, hzero⟩)
  · rw [Bool.or_eq_true, List.isEmpty_iff, beq_iff_eq, not_or] at hu
    constructor
    · intro h
      obtain ⟨x, hx, h⟩ := bind_eq_ok.1 h
      obtain ⟨n, hn, h⟩ := bind_eq_ok.1 h
      split at h
      · rename_i weight hw
        refine ⟨[⟨_, n, weight⟩], .used hu.1 hu.2 rfl hx hn hw, ?_⟩
        exact (pure_eq_ok.1 h).symm
      · cases h
    · rintro ⟨atoms, ha, rfl⟩
      cases ha with
      | unused h => exact absurd h (not_or.2 hu)
      | used _ _ he hnm hc hw =>
        rw [hnm, ok_bind, hc, hw]
        simp [addAtoms, he]

lemma addElements_eq_ok {fields : List (List Char)} : fields.foldlM (addElement w) s = .ok s' ↔
      ∃ groups, List.Forall₂ (FieldAtoms w) fields groups ∧ s' = addAtoms s groups.flatten := by
  induction fields generalizing s with
  | nil =>
    rw [foldlM_nil, pure_eq_ok]
    simp [addAtoms, eq_comm]
  | cons field fields ih =>
    simp only [foldlM_cons, bind_eq_ok, addElement_eq_ok, ih]
    constructor
    · rintro ⟨_, ⟨atoms, ha, rfl⟩, groups, hg, rfl⟩
      exact ⟨atoms :: groups, .cons ha hg, by simp [addAtoms]⟩
    · rintro ⟨groups, hg, rfl⟩
      cases hg with
      | cons ha hg =>
        exact ⟨_, ⟨_, ha, rfl⟩, _, hg, by simp [addAtoms]⟩

lemma elements_eq_ok {e : Entry} : (pieces 5 (slice e.first 24 44)).foldlM (addElement w) s = .ok s' ↔
      ∃ groups, List.Forall₂ (FieldAtoms w) e.fields groups ∧ s' = addAtoms s groups.flatten := by
  have hl : (slice e.first 24 44).length ≤ 5 * 4 := by
    simp [slice]
  have hc : ((List.range 4).map fun i => slice (slice e.first 24 44) (5 * i) (5 * i + 5)) = e.fields := by
    apply map_congr_left
    intro i hi
    rw [mem_range] at hi
    exact slice_slice _ (by omega)
  have hb : ∀ fields : List (List Char), ∀ s : Species Scalar,
      (fields.filter fun p => !p.isEmpty).foldlM (addElement w) s = fields.foldlM (addElement w) s := by
    intro fields
    induction fields with
    | nil => exact fun s => rfl
    | cons field fields ih =>
      intro s
      cases field with
      | nil => exact ih s
      | cons c field =>
        rw [filter_cons_of_pos rfl, foldlM_cons]
        exact congrArg _ (funext ih)
  rw [pieces_eq_filter (by decide) 4 hl, hc, hb, addElements_eq_ok]

lemma entryTemperatures_eq_ok {lowest midpoint highest : Float} :
    entryTemperatures (some common) line = .ok (lowest, midpoint, highest) ↔
      ∃ own, readNumbers (slice line 45 74) = .ok own ∧ own[0]? = some lowest ∧ own[1]? = some highest ∧
        (if own.length = 3 then own[2]? else common[1]?) = some midpoint := by
  unfold entryTemperatures
  simp only [bind_eq_ok, entryAt_eq_ok]
  constructor
  · rintro ⟨own, hown, low, hlow, high, hh, h⟩
    refine ⟨own, hown, ?_⟩
    split_ifs at h ⊢
    all_goals
      obtain ⟨mid, hmid, h⟩ := bind_eq_ok.1 h
      cases pure_eq_ok.1 h
      exact ⟨hlow, hh, entryAt_eq_ok.1 hmid⟩
  · rintro ⟨own, hown, hlow, hh, hmid⟩
    refine ⟨own, hown, lowest, hlow, highest, hh, ?_⟩
    split_ifs at hmid ⊢
    · rw [entryAt_eq_ok.2 hmid, ok_bind, pure_ok]
    · rw [entryAt_eq_ok.2 hmid, ok_bind, pure_ok]

lemma forall₂_congr_mem {α β : Type} {R S : α → β → Prop} {xs : List α} {ys : List β}
    (h : ∀ x ∈ xs, ∀ y, R x y ↔ S x y) : List.Forall₂ R xs ys ↔ List.Forall₂ S xs ys := by
  induction xs generalizing ys with
  | nil => simp
  | cons x xs ih =>
    rw [forall_mem_cons] at h
    simp [forall₂_cons_left_iff, h.1, ih h.2]

lemma readReal_nil : Number.readReal [] = .error .notNumeric := rfl

lemma coefficientsOf_eq_ok {count : ℕ} (hcn : count ≤ 5) {xs : List Scalar} : coefficientsOf count line = .ok xs ↔
      List.Forall₂ Numeral ((List.range count).map fun i => slice line (15 * i) (15 * i + 15)) xs := by
  unfold coefficientsOf
  rw [mapM_eq_ok, forall₂_map_left_iff]
  apply forall₂_congr_mem
  intro i hi x
  rw [mem_range] at hi
  have hc : slice (slice line 0 75) (15 * i) (15 * i + 15) = slice line (15 * i) (15 * i + 15) := by
    rw [slice_slice line (by omega), Nat.zero_add, Nat.zero_add]
  simp only [bind_eq_ok, entryAt_eq_ok, getElem?_pieces (n := 15) (by decide), pure_eq_ok]
  by_cases hl : 15 * i < (slice line 0 75).length
  · simp [hl, hc, Numeral, eq_comm]
  · -- no numeral is empty, so a missing column and an empty one come to the same
    have hnil := slice_eq_nil (Nat.le_of_not_lt hl) (15 * i + 15)
    simp [Numeral, ← hc, hnil, readReal_nil]

lemma entryPolynomials_eq_ok {e : Entry} {high low : Nasa Scalar} :
    entryPolynomials e.second e.third e.fourth = .ok (high, low) ↔
      List.Forall₂ Numeral ((List.range 14).map e.coefficient) (high.toList ++ low.toList) := by
  have hc : (List.range 14).map e.coefficient = ((List.range 5).map fun i => slice e.second (15 * i) (15 * i + 15)) ++
        (((List.range 5).map fun i => slice e.third (15 * i) (15 * i + 15)) ++
          (List.range 4).map fun i => slice e.fourth (15 * i) (15 * i + 15)) := rfl
  unfold entryPolynomials
  simp only [bind_eq_ok, coefficientsOf_eq_ok (le_refl 5), coefficientsOf_eq_ok (show 4 ≤ 5 by decide)]
  constructor
  · rintro ⟨xs, hxs, ys, hys, zs, hzs, h⟩
    split at h
    · cases pure_eq_ok.1 h
      exact rel_append hxs (rel_append hys hzs)
    · cases h
  · intro h
    obtain ⟨a1, a2, a3, a4, a5, a6, a7⟩ := high
    obtain ⟨b1, b2, b3, b4, b5, b6, b7⟩ := low
    have hsc := forall₂_take_append _ [a1, a2, a3, a4, a5] [a6, a7, b1, b2, b3, b4, b5, b6, b7] h
    have hr := forall₂_drop_append _ [a1, a2, a3, a4, a5] [a6, a7, b1, b2, b3, b4, b5, b6, b7] h
    have ht := forall₂_take_append _ [a6, a7, b1, b2, b3] [b4, b5, b6, b7] hr
    have hf := forall₂_drop_append _ [a6, a7, b1, b2, b3] [b4, b5, b6, b7] hr
    exact ⟨_, hsc, _, ht, _, hf, rfl⟩

/-- Reading an entry succeeds exactly if its columns can be decoded. -/
lemma readEntry_eq_ok {e : Entry} : readEntry w (some common) s e.first e.second e.third e.fourth = .ok s' ↔
      Decoded w common e s s' := by
  unfold readEntry
  simp only [bind_eq_ok, elements_eq_ok, Prod.exists, entryTemperatures_eq_ok, entryPolynomials_eq_ok, pure_eq_ok]
  constructor
  · rintro ⟨_, ⟨groups, hg, rfl⟩, lowest, midpoint, highest, ⟨own, hown⟩, high, low, hc, rfl⟩
    exact ⟨rfl, ⟨groups, hg, rfl, rfl⟩,
      ⟨own, lowest, midpoint, highest, hown.1, hown.2.1, hown.2.2.1, hown.2.2.2, rfl⟩, hc⟩
  · rintro ⟨hn, ⟨groups, hg, hcm, hw⟩, ⟨own, lowest, midpoint, highest, hown, hlow, hh, hmid, hr⟩, hc⟩
    refine ⟨_, ⟨groups, hg, rfl⟩, lowest, midpoint, highest, ⟨own, hown, hlow, hh, hmid⟩, s'.high, s'.low, hc, ?_⟩
    obtain ⟨name, composition, weight, high, low, low', mid', hi'⟩ := s'
    obtain ⟨rfl, rfl, rfl⟩ := hr
    subst hn hcm hw
    rfl

end Decoding

/-! ## The first entry of each species -/

def firstNamed (entries : List Entry) (name : String) : Option Entry := entries.find? (·.name == name)

lemma firstNamed_append (entries others : List Entry) (name : String) :
    firstNamed (entries ++ others) name = (firstNamed entries name).or (firstNamed others name) :=
  List.find?_append

lemma firstNamed_singleton_of_ne {e : Entry} {name : String} (h : e.name ≠ name) : firstNamed [e] name = none := by
  simp [firstNamed, h]

/-- What the entries make of a species: the first one of its name is decoded, and without one nothing
happens. -/
structure Completed (w : Weights Scalar) (common : List Float) (entries : List Entry)
    (s s' : Species Scalar) : Prop where
  decoded : ∀ e, firstNamed entries s.name = some e → Decoded w common e s s'
  kept : firstNamed entries s.name = none → s' = s

section Completing
variable {w : Weights Scalar} {common : List Float} {entries : List Entry} {s s' s'' : Species Scalar}

lemma Completed.name (h : Completed w common entries s s') : s'.name = s.name := by
  cases hf : firstNamed entries s.name with
  | none => rw [h.kept hf]
  | some e => exact (h.decoded e hf).name

lemma Completed.unique (h : Completed w common entries s s') (h' : Completed w common entries s s'') : s' = s'' := by
  cases hf : firstNamed entries s.name with
  | none => rw [h.kept hf, h'.kept hf]
  | some e =>
    have hr := (readEntry_eq_ok.2 (h.decoded e hf)).symm.trans (readEntry_eq_ok.2 (h'.decoded e hf))
    exact Except.ok.inj hr

lemma Completed.congr {others : List Entry} (h : Completed w common entries s s')
    (hf : firstNamed others s.name = firstNamed entries s.name) :
    Completed w common others s s' := by
  constructor
  · rw [hf]
    exact h.decoded
  · rw [hf]
    exact h.kept

lemma completed_nil (s : Species Scalar) : Completed w common [] s s :=
  ⟨fun _ h => absurd h (by simp [firstNamed]), fun _ => rfl⟩

lemma forall₂_completed_unique {sp cur result : List (Species Scalar)}
    (h : List.Forall₂ (Completed w common entries) sp cur)
    (h' : List.Forall₂ (Completed w common entries) sp result) : cur = result := by
  induction h generalizing result with
  | nil => cases h'; rfl
  | cons hs _ ih =>
    cases h' with
    | cons hs' hr => rw [hs.unique hs', ih hr]

end Completing

section Entries
variable {w : Weights Scalar} {common : List Float}

lemma Entry.isIgnored_first (e : Entry) : isIgnored e.first = false := by
  obtain ⟨c, hc, hm⟩ := e.shown
  unfold isIgnored
  cases hl : stripLeft e.first with
  | nil => simp [hl] at hc
  | cons a rest =>
    rw [hl, List.head?_cons, Option.mem_some_iff] at hc
    simp [hc, hm]

lemma Entry.opensWith_first (e : Entry) : opensWith "end" e.first = false := beq_eq_false_iff_ne.2 e.continued

section Step
variable {known : Option (List Float)} {e : Entry} {more : List (List Char)} {cur : List (Species Scalar)}

/-- An entry is read if its species is listed and has no weight yet. -/
lemma readEntries_lines : readEntries w known (e.lines ++ more) cur =
      match cur.findIdx? (·.name == e.name) with
      | none => readEntries w known more cur
      | some i => entryAt cur i >>= fun s => if isWeightless s then
          readEntry w known s e.first e.second e.third e.fourth >>= fun s' =>
            if (cur.set i s').any isWeightless then readEntries w known more (cur.set i s') else pure (cur.set i s')
          else readEntries w known more cur := by
  rw [Entry.lines, cons_append, readEntries, if_neg (by simp [e.opensWith_first]), if_neg (by simp [e.isIgnored_first])]
  rfl

end Step

/-! ### All entries -/

lemma forall₂_iff_getElem? {α β : Type} {R : α → β → Prop} {xs : List α} {ys : List β} : List.Forall₂ R xs ys ↔
      xs.length = ys.length ∧ ∀ (i : ℕ) x y, xs[i]? = some x → ys[i]? = some y → R x y := by
  rw [forall₂_iff_get]
  apply and_congr_right
  intro hl
  constructor
  · intro h i x y hx hy
    obtain ⟨hi, rfl⟩ := List.getElem?_eq_some_iff.1 hx
    obtain ⟨hj, rfl⟩ := List.getElem?_eq_some_iff.1 hy
    exact h i hi hj
  · intro h i hi hj
    exact h i _ _ (List.getElem?_eq_getElem hi) (List.getElem?_eq_getElem hj)

section All
variable {sp cur : List (Species Scalar)} {entries : List Entry} {e : Entry}

lemma forall₂_completed_congr {others : List Entry} (h : List.Forall₂ (Completed w common entries) sp cur)
    (hf : ∀ s ∈ sp, firstNamed others s.name = firstNamed entries s.name) :
    List.Forall₂ (Completed w common others) sp cur := by
  rw [forall₂_iff_getElem?] at h ⊢
  refine ⟨h.1, fun i s s' hs hs' => ?_⟩
  exact (h.2 i s s' hs hs').congr (hf s (mem_of_getElem? hs))

lemma forall₂_completed_set (hnames : (namesOf sp).Nodup)
    (h : List.Forall₂ (Completed w common entries) sp cur) {i : ℕ} {s s' : Species Scalar}
    (hs : sp[i]? = some s) (hn : s.name = e.name) (hf : firstNamed entries s.name = none)
    (hd : Decoded w common e s s') :
    List.Forall₂ (Completed w common (entries ++ [e])) sp (cur.set i s') := by
  rw [forall₂_iff_getElem?] at h ⊢
  refine ⟨by rw [h.1, length_set], fun j t t' ht ht' => ?_⟩
  by_cases hij : i = j
  · subst hij
    cases hs.symm.trans ht
    have hi : i < cur.length := by
      rw [← h.1]
      exact (List.getElem?_eq_some_iff.1 hs).1
    rw [List.getElem?_set_self hi] at ht'
    cases ht'
    have hown : firstNamed (entries ++ [e]) s.name = some e := by
      rw [firstNamed_append, hf]
      simp [firstNamed, hn]
    exact ⟨fun e' he' => by cases hown.symm.trans he'; exact hd, fun hnn => by simp [hown] at hnn⟩
  · rw [List.getElem?_set_ne hij] at ht'
    apply (h.2 j t t' ht ht').congr
    have ho : e.name ≠ t.name := by
      intro heq
      apply hij
      obtain ⟨hi, rfl⟩ := List.getElem?_eq_some_iff.1 hs
      obtain ⟨hj, rfl⟩ := List.getElem?_eq_some_iff.1 ht
      have hsm : (namesOf sp).get ⟨i, by simpa [namesOf] using hi⟩ =
          (namesOf sp).get ⟨j, by simpa [namesOf] using hj⟩ := by
        simp [namesOf, hn, heq]
      simpa using hnames.injective_get hsm
    rw [firstNamed_append, firstNamed_singleton_of_ne ho, Option.or_none]

lemma forall₂_completed_names (h : List.Forall₂ (Completed w common entries) sp cur) : namesOf cur = namesOf sp := by
  induction h with
  | nil => rfl
  | cons hs _ ih =>
    unfold namesOf at ih ⊢
    rw [map_cons, map_cons, hs.name, ih]

/-- When every species has a weight, all of them have had their entries. -/
lemma forall₂_completed_finished (hzero : ∀ s ∈ sp, isWeightless s = true)
    (h : List.Forall₂ (Completed w common entries) sp cur)
    (hk : ∀ s ∈ cur, isWeightless s = false) (rest : List Entry) :
    List.Forall₂ (Completed w common (entries ++ rest)) sp cur := by
  rw [forall₂_iff_getElem?] at h ⊢
  refine ⟨h.1, fun i s s' hs hs' => ?_⟩
  have hc := h.2 i s s' hs hs'
  apply hc.congr
  rw [firstNamed_append]
  cases hf : firstNamed entries s.name with
  | none =>
    have hw := hzero s (mem_of_getElem? hs)
    rw [← hc.kept hf, hk s' (mem_of_getElem? hs')] at hw
    cases hw
  | some e => rfl

end All

/-- An entry is passed over if its name is not listed or had an entry before. -/
lemma forall₂_completed_skip {sp cur : List (Species Scalar)} {done : List Entry} {e : Entry}
    (h : List.Forall₂ (Completed w common done) sp cur)
    (hsn : ∀ s ∈ sp, e.name = s.name → ∃ e', firstNamed done s.name = some e') :
    List.Forall₂ (Completed w common (done ++ [e])) sp cur := by
  apply forall₂_completed_congr h
  intro s hs
  rw [firstNamed_append]
  by_cases hn : e.name = s.name
  · obtain ⟨e', he'⟩ := hsn s hs hn
    rw [he', Option.some_or]
  · rw [firstNamed_singleton_of_ne hn, Option.or_none]

section Run
variable {sp cur result : List (Species Scalar)} {all done entries : List Entry}
  (hnames : (namesOf sp).Nodup) (hzero : ∀ s ∈ sp, isWeightless s = true)

include hnames hzero in
/-- The first entry of a species is read, and if every species has a weight then, this is the end. -/
lemma readEntries_first {e : Entry} {more : List (List Char)} {i : ℕ} {s : Species Scalar}
    (hcur : List.Forall₂ (Completed w common done) sp cur) (hs : sp[i]? = some s)
    (hp : cur.findIdx? (·.name == e.name) = some i) (hn : s.name = e.name)
    (hnew : firstNamed done s.name = none)
    (hm : ∀ cur', List.Forall₂ (Completed w common (done ++ [e])) sp cur' →
      (readEntries w (some common) more cur' = .ok result ↔
        List.Forall₂ (Completed w common (done ++ [e] ++ entries)) sp result)) :
    readEntries w (some common) (e.lines ++ more) cur = .ok result ↔
      List.Forall₂ (Completed w common (done ++ [e] ++ entries)) sp result := by
  have hfst : firstNamed (done ++ [e] ++ entries) s.name = some e := by
    rw [firstNamed_append, firstNamed_append, hnew]
    simp [firstNamed, hn]
  obtain ⟨hl, hall⟩ := forall₂_iff_getElem?.1 hcur
  have hi : i < cur.length := hl ▸ (List.getElem?_eq_some_iff.1 hs).1
  have hs' : cur[i]? = some s := by
    rw [List.getElem?_eq_getElem hi, (hall i _ _ hs (List.getElem?_eq_getElem hi)).kept hnew]
  simp only [readEntries_lines, hp, entryAt_eq_ok.2 hs', ok_bind, if_pos (hzero s (mem_of_getElem? hs))]
  cases hr : readEntry w (some common) s e.first e.second e.third e.fourth with
  | error fault =>
    constructor
    · intro h
      cases h
    · intro h
      obtain ⟨hl', ha'⟩ := forall₂_iff_getElem?.1 h
      have hi' : i < result.length := by omega
      have hd := (ha' i _ _ hs (List.getElem?_eq_getElem hi')).decoded e hfst
      cases hr.symm.trans (readEntry_eq_ok.2 hd)
  | ok s' =>
    have hset := forall₂_completed_set hnames hcur hs hn hnew (readEntry_eq_ok.1 hr)
    rw [ok_bind]
    split_ifs with hany
    · exact hm _ hset
    · have hk : ∀ t ∈ cur.set i s', isWeightless t = false := by simpa using hany
      have hf := forall₂_completed_finished hzero hset hk entries
      rw [pure_eq_ok]
      constructor
      · rintro rfl
        exact hf
      · exact forall₂_completed_unique hf

include hnames hzero in
/-- Reading the entries that are left, after some that are done with. -/
lemma readEntries_eq_ok (hw : ∀ s ∈ sp, ∀ e, firstNamed all s.name = some e →
      ∀ s', Decoded w common e s s' → isWeightless s' = false)
    {closing : List Char} (hcl : opensWith "end" closing = true) (hall : done ++ entries = all)
    (hcur : List.Forall₂ (Completed w common done) sp cur) :
    readEntries w (some common) (entries.flatMap Entry.lines ++ [closing]) cur = .ok result ↔
      List.Forall₂ (Completed w common all) sp result := by
  induction entries generalizing done cur with
  | nil =>
    rw [append_nil] at hall
    subst hall
    rw [flatMap_nil, nil_append, readEntries, if_pos hcl, Except.ok.injEq]
    constructor
    · rintro rfl
      exact hcur
    · exact forall₂_completed_unique hcur
  | cons e entries ih =>
    rw [append_cons] at hall
    rw [flatMap_cons, append_assoc]
    cases hp : cur.findIdx? (·.name == e.name) with
    | none =>
      simp only [readEntries_lines, hp]
      refine ih hall (forall₂_completed_skip hcur fun s hs hn => ?_)
      have hmem : e.name ∈ namesOf cur := by
        rw [forall₂_completed_names hcur, hn]
        exact mem_map_of_mem hs
      obtain ⟨t, ht, htn⟩ := mem_map.1 hmem
      have ho := List.findIdx?_eq_none_iff.1 hp t ht
      simp [htn] at ho
    | some i =>
      obtain ⟨hi, hn, -⟩ := List.findIdx?_eq_some_iff_getElem.1 hp
      obtain ⟨hl, hrel⟩ := forall₂_iff_getElem?.1 hcur
      have hs : sp[i]? = some sp[i] := List.getElem?_eq_getElem (hl ▸ hi)
      have hs' : cur[i]? = some cur[i] := List.getElem?_eq_getElem hi
      have hc := hrel i _ _ hs hs'
      rw [beq_iff_eq, hc.name] at hn
      cases hd : firstNamed done sp[i].name with
      | none =>
        rw [← hall]
        apply readEntries_first hnames hzero hcur hs hp hn hd
        rw [hall]
        exact fun cur' => ih hall
      | some e' =>
        -- the species has a weight by now, so the entry is passed over
        have hf : firstNamed all sp[i].name = some e' := by
          rw [← hall, firstNamed_append, firstNamed_append, hd, Option.some_or, Option.some_or]
        have hk := hw _ (mem_of_getElem? hs) e' hf _ (hc.decoded e' hd)
        simp only [readEntries_lines, hp, entryAt_eq_ok.2 hs', ok_bind, hk, Bool.false_eq_true, if_false]
        refine ih hall (forall₂_completed_skip hcur fun t _ ht => ⟨e', ?_⟩)
        rw [← ht, ← hn, hd]

end Run

end Entries

/-! ## Databases -/

/-- A database with common temperatures. -/
structure Database where
  opening : List Char
  common : List Char
  entries : List Entry
  closing : List Char
  shown : isIgnored opening = false
  opens : occurs "thermo".toList (lower opening) = true
  numbered : ∃ c ∈ common.head?, isDigit c = true
  closes : lower (closing.take 3) = "end".toList

def Database.lines (d : Database) : List (List Char) :=
  d.opening :: d.common :: (d.entries.flatMap Entry.lines ++ [d.closing])

/-- Changes of a list of entries that do not concern the first entries of some names. -/
inductive Edit (names : List String) : List Entry → List Entry → Prop
  | insert (before after : List Entry) {e : Entry} (h : e.name ∉ names) :
      Edit names (before ++ after) (before ++ e :: after)
  | delete (before after : List Entry) {e : Entry} (h : e.name ∉ names) :
      Edit names (before ++ e :: after) (before ++ after)
  | move (before between after : List Entry) {e : Entry} (h : e.name ∉ names) :
      Edit names (before ++ e :: (between ++ after)) (before ++ (between ++ e :: after))
  | again (before after : List Entry) {e : Entry} (h : ∃ e' ∈ before, e'.name = e.name) :
      Edit names (before ++ after) (before ++ e :: after)

section Edits
variable {names : List String} {entries others : List Entry} {name : String}

lemma firstNamed_cons_of_ne {e : Entry} (h : e.name ≠ name) :
    firstNamed (e :: entries) name = firstNamed entries name := by
  simp [firstNamed, h]

lemma Edit.firstNamed_eq (h : Edit names entries others) (hn : name ∈ names) :
    firstNamed others name = firstNamed entries name := by
  cases h with
  | insert before after h | delete before after h =>
    rw [firstNamed_append, firstNamed_append, firstNamed_cons_of_ne (by rintro rfl; exact h hn)]
  | move before between after h =>
    have hne := ne_of_mem_of_not_mem hn h
    rw [firstNamed_append, firstNamed_append, firstNamed_append, firstNamed_cons_of_ne hne.symm,
      firstNamed_cons_of_ne hne.symm, firstNamed_append]
  | again before after h =>
    obtain ⟨e', he', hsm⟩ := h
    rw [firstNamed_append, firstNamed_append]
    by_cases ho : e'.name = name
    · have hso : (firstNamed before name).isSome = true := List.find?_isSome.2 ⟨e', he', by simp [ho]⟩
      obtain ⟨first, hf⟩ := Option.isSome_iff_exists.1 hso
      rw [hf, Option.some_or, Option.some_or]
    · rw [firstNamed_cons_of_ne (by rwa [← hsm])]

lemma firstNamed_of_edits (h : Relation.ReflTransGen (Edit names) entries others)
    (hn : name ∈ names) : firstNamed others name = firstNamed entries name := by
  induction h with
  | refl => rfl
  | tail _ hst ih => rw [hst.firstNamed_eq hn, ih]

end Edits

lemma fieldsFrom_eq_cons {word : List Char} (hw : word ≠ []) (s : List Char) :
    ∃ tail more, fieldsFrom word s = (word.reverse ++ tail) :: more := by
  induction s generalizing word with
  | nil => exact ⟨[], [], by simp [fieldsFrom, hw]⟩
  | cons c s ih =>
    rw [fieldsFrom]
    split_ifs with hc he
    · simp [hw] at he
    · exact ⟨[], fieldsFrom [] s, by rw [append_nil]⟩
    · obtain ⟨tail, more, h⟩ := ih (cons_ne_nil c word)
      exact ⟨c :: tail, more, by rw [h]; simp⟩

section Reading
variable {w : Weights Scalar} {d : Database} {species result : List (Species Scalar)}

def isNumbered (line : List Char) : Bool := ((fields line).headD []).head?.any isDigit

lemma commonTemperatures_of_isNumbered (h : isNumbered line = true)
    (rest : List (List Char)) : commonTemperatures (line :: rest) =
      readNumbers line >>= fun temperatures => pure (some temperatures, rest) := by
  unfold commonTemperatures
  unfold isNumbered at h
  dsimp only
  rw [headD_cons]
  cases hf : fields line with
  | nil =>
    rw [hf] at h
    cases h
  | cons word more =>
    rw [hf, headD_cons] at h
    dsimp only
    rw [if_pos h]
    rfl

lemma Database.isNumbered_common (d : Database) : isNumbered d.common = true := by
  obtain ⟨c, hc, hd⟩ := d.numbered
  obtain ⟨tail, hl⟩ := List.head?_eq_some_iff.1 hc
  obtain ⟨word, more, hf⟩ := fieldsFrom_eq_cons (cons_ne_nil c []) tail
  rw [isNumbered, hl, fields, fieldsFrom, if_neg (by simp [isBlank_eq_false_of_isDigit hd]), hf]
  simp [hd]

lemma readThermo_eq_ok : readThermo w d.lines species = .ok result ↔
      ∃ temperatures, readNumbers d.common = .ok temperatures ∧
        readEntries w (some temperatures) (d.entries.flatMap Entry.lines ++ [d.closing]) species = .ok result := by
  have ho : afterOpening d.lines = some (d.common :: (d.entries.flatMap Entry.lines ++ [d.closing])) := by
    rw [Database.lines, afterOpening, if_pos (by rw [d.shown, d.opens]; rfl)]
  unfold readThermo
  rw [ho]
  dsimp only
  rw [commonTemperatures_of_isNumbered d.isNumbered_common]
  constructor
  · intro h
    obtain ⟨⟨common, rest⟩, hc, h⟩ := bind_eq_ok.1 h
    obtain ⟨temperatures, ht, hp⟩ := bind_eq_ok.1 hc
    cases pure_eq_ok.1 hp
    exact ⟨temperatures, ht, h⟩
  · rintro ⟨temperatures, ht, h⟩
    rw [ht]
    exact h

/-- What a database makes of species that have no weight yet, if no first entry leaves a species
without weight. -/
lemma readThermo_completed (hnames : (namesOf species).Nodup) (hzero : ∀ s ∈ species, isWeightless s = true)
    (hw : ∀ s ∈ species, ∀ e, firstNamed d.entries s.name = some e → ∀ groups,
      List.Forall₂ (FieldAtoms w) e.fields groups → isWeightless (addAtoms s groups.flatten) = false) :
    readThermo w d.lines species = .ok result ↔ ∃ temperatures, readNumbers d.common = .ok temperatures ∧
        List.Forall₂ (Completed w temperatures d.entries) species result := by
  rw [readThermo_eq_ok]
  apply exists_congr
  intro temperatures
  apply and_congr_right
  intro _
  have hd : ∀ s ∈ species, ∀ e, firstNamed d.entries s.name = some e →
      ∀ s', Decoded w temperatures e s s' → isWeightless s' = false := by
    intro s hs e he s' h
    obtain ⟨groups, hg, -, hwg⟩ := h.atoms
    rw [isWeightless, hwg]
    exact hw s hs e he groups hg
  have hst : List.Forall₂ (Completed w temperatures []) species species := forall₂_same.2 fun s _ => completed_nil s
  exact readEntries_eq_ok hnames hzero hd (beq_iff_eq.2 d.closes) rfl hst

/-- Reading a database completes each species from the first entry of its name. Other entries do not
matter, wherever they stand. -/
theorem thermo_entries {text : String} (htext : Text.lines text = d.lines)
    (hnames : (namesOf species).Nodup) (hzero : ∀ s ∈ species, isWeightless s = true)
    (hweights : ∀ s ∈ species, ∀ e, firstNamed d.entries s.name = some e → ∀ groups,
      List.Forall₂ (FieldAtoms w) e.fields groups → isWeightless (addAtoms s groups.flatten) = false) :
    (∀ result, readThermo w (Text.lines text) species = .ok result ↔
      ∃ temperatures, readNumbers d.common = .ok temperatures ∧
        List.Forall₂ (Completed w temperatures d.entries) species result) ∧
    ∀ (d' : Database) (text' : String), Text.lines text' = d'.lines → d'.common = d.common →
      Relation.ReflTransGen (Edit (namesOf species)) d.entries d'.entries →
      ∀ result, readThermo w (Text.lines text') species = .ok result ↔
        readThermo w (Text.lines text) species = .ok result := by
  rw [htext]
  refine ⟨fun result => readThermo_completed hnames hzero hweights, ?_⟩
  intro d' text' htext' hcommon hedits result
  have hfirst : ∀ s ∈ species, firstNamed d'.entries s.name = firstNamed d.entries s.name :=
    fun s hs => firstNamed_of_edits hedits (mem_map_of_mem hs)
  have hweights' : ∀ s ∈ species, ∀ e, firstNamed d'.entries s.name = some e → ∀ groups,
      List.Forall₂ (FieldAtoms w) e.fields groups → isWeightless (addAtoms s groups.flatten) = false := by
    intro s hs e he
    rw [hfirst s hs] at he
    exact hweights s hs e he
  rw [htext', readThermo_completed hnames hzero hweights, readThermo_completed hnames hzero hweights', hcommon]
  apply exists_congr
  intro temperatures
  apply and_congr_right
  intro _
  constructor
  · intro h
    exact forall₂_completed_congr h fun s hs => (hfirst s hs).symm
  · intro h
    exact forall₂_completed_congr h hfirst

end Reading

/-! ### Hydrogen -/

lemma toOption_eq_some {ε α : Type} {x : Except ε α} {a : α} : x.toOption = some a ↔ x = .ok a := by
  cases x <;> simp [Except.toOption]

def hydrogenLine (name count : Char) : List Char :=
  name :: List.replicate 23 ' ' ++ "H   ".toList ++ count :: List.replicate 16 ' ' ++ "300. 5000. 1000.\n".toList

def atomEntry : Entry :=
  ⟨hydrogenLine 'A' '1', zeroLine 5, zeroLine 5, zeroLine 4, ⟨'A', by decide, by decide⟩, by decide⟩

/-- A second entry of the same species, with another number of atoms. -/
def moleculeEntry : Entry :=
  ⟨hydrogenLine 'A' '2', zeroLine 5, zeroLine 5, zeroLine 4, ⟨'A', by decide, by decide⟩, by decide⟩

def strangerEntry : Entry :=
  ⟨hydrogenLine 'B' '1', zeroLine 5, zeroLine 5, zeroLine 4, ⟨'B', by decide, by decide⟩, by decide⟩

def hydrogenDatabase (entries : List Entry) : Database where
  opening := "THERMO\n".toList
  common := "300. 1000. 5000.\n".toList
  entries := entries
  closing := "END\n".toList
  shown := by decide
  opens := by decide
  numbered := ⟨'3', by decide, by decide⟩
  closes := by decide

def hydrogenSpecies : List (Species Scalar) := [Species.named "A", Species.named "C"]

theorem hydrogen_read :
    ∃ result, readThermo .standard (Text.lines (String.ofList (hydrogenDatabase [atomEntry]).lines.flatten))
        hydrogenSpecies = .ok result ∧
      readThermo .standard (Text.lines (String.ofList
        (hydrogenDatabase [strangerEntry, atomEntry, moleculeEntry]).lines.flatten)) hydrogenSpecies = .ok result ∧
      (∃ temperatures, readNumbers "300. 1000. 5000.\n".toList = .ok temperatures ∧
        List.Forall₂ (Completed .standard temperatures [atomEntry]) hydrogenSpecies result) ∧
      result.map (·.weight.toFloat.toBits) = [(1.00794 : Float).toBits, (0 : Float).toBits] := by
  have hshort : Text.lines (String.ofList (hydrogenDatabase [atomEntry]).lines.flatten) =
      (hydrogenDatabase [atomEntry]).lines := Text.lines_flatten (by decide)
  have hlong : Text.lines (String.ofList (hydrogenDatabase [strangerEntry, atomEntry, moleculeEntry]).lines.flatten) =
      (hydrogenDatabase [strangerEntry, atomEntry, moleculeEntry]).lines :=
    Text.lines_flatten (by decide)
  have hcheck : (hydrogenSpecies.all fun s =>
      (atomEntry.fields.foldlM (addElement .standard) s).toOption.all fun s' => !isWeightless s') = true := by
    decide
  have hentries := @thermo_entries .standard (hydrogenDatabase [atomEntry]) hydrogenSpecies _ hshort
    (by decide) (by simp [hydrogenSpecies]; decide +kernel) (by
      intro s hs e he groups hgroups
      obtain rfl : e = atomEntry := mem_singleton.1 (mem_of_find?_eq_some he)
      have := all_eq_true.1 hcheck s hs
      rw [addElements_eq_ok.2 ⟨groups, hgroups, rfl⟩] at this
      simpa [Except.toOption] using this)
  have hseen : ((readThermo .standard (hydrogenDatabase [atomEntry]).lines hydrogenSpecies).toOption.map
      fun result => result.map (·.weight.toFloat.toBits)) = some [(1.00794 : Float).toBits, (0 : Float).toBits] := by
    decide +kernel
  obtain ⟨result, hresult, hweights⟩ := Option.map_eq_some_iff.1 hseen
  have hread : readThermo .standard (Text.lines (String.ofList
      (hydrogenDatabase [atomEntry]).lines.flatten)) hydrogenSpecies = .ok result := by
    rw [hshort]
    exact toOption_eq_some.1 hresult
  have hedits : Relation.ReflTransGen (Edit (namesOf hydrogenSpecies)) [atomEntry]
      [strangerEntry, atomEntry, moleculeEntry] :=
    .tail (.single (.insert [] [atomEntry] (by decide)))
      (.again [strangerEntry, atomEntry] [] ⟨atomEntry, by simp, by decide⟩)
  exact ⟨result, hread, (hentries.2 _ _ hlong rfl hedits result).2 hread, (hentries.1 result).1 hread, hweights⟩

def indentedMark : List Char := " !\n".toList

theorem composed_species_and_indented_mark : ((readThermo .standard (hydrogenDatabase [atomEntry]).lines
      [{ (Species.named "A" : Species Scalar) with composition := [("H", .int 2)] }]).toOption.map
        fun result => result.map fun s => s.composition.map fun p => (p.1, p.2.wholePart)) =
      some [[("H", 2), ("H", 1)]] ∧
    (indentedMark.head? ≠ some '!' ∧ indentedMark.all isBlank = false ∧ lower (indentedMark.take 3) ≠ "end".toList) ∧
    ((readThermo .standard (["THERMO\n".toList, "300. 1000. 5000.\n".toList] ++
        [indentedMark, "END\n".toList, ['\n'], ['\n']] ++ atomEntry.lines ++ ["END\n".toList])
      [Species.named "A"]).toOption.map fun result => result.map isWeightless) = some [true] := by
  refine ⟨by decide +kernel, ⟨by decide, by decide, by decide⟩, by decide +kernel⟩

end Kinetics.Reading
