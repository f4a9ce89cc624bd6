import Kinetics.Proofs.SoundDrafts
import Kinetics.Proofs.TextCuts
/-!
# Splitting off reverse directions

A reaction with parameters of its own for the reverse direction should become two irreversible
reactions in its place (`directions`). The reader looks for the place again by resemblance, which is
weaker than identity, so an earlier reaction can be taken for the one at hand: it is made
irreversible instead, and the reverse direction is put behind it (`place`). `split_eq` says that the
reader does this one reaction after the other. The result is the intended one if and only if no
reaction with reverse parameters is preceded by one that resembles it (`Apart`); otherwise reverse
parameters are left over.
-/

open List

namespace Kinetics.Reading

def forwardOnly (r : Reaction String Scalar) : Reaction String Scalar := { r with reversible := false, reverse := [] }

/-- The reverse direction of a reaction, with the first parameters given for it. -/
def backward (r : Reaction String Scalar) : Reaction String Scalar :=
  reverseReaction r (r.reverse.getD 0 r.A) (r.reverse.getD 1 r.b) (r.reverse.getD 2 r.E)

/-- A reaction, or its two directions if the reverse one has parameters of its own. -/
def directions (r : Reaction String Scalar) : List (Reaction String Scalar) :=
  if r.reverse = [] then [r] else [forwardOnly r, backward r]

/-- Puts the reverse direction of `r` behind the first earlier reaction that resembles `r` and makes
that one irreversible; if there is none, `r` is that reaction itself. -/
def place (r : Reaction String Scalar) : List (Reaction String Scalar) → List (Reaction String Scalar)
  | [] => [forwardOnly r, backward r]
  | s :: rest =>
    if s.resembles r then forwardOnly s :: backward r :: (rest ++ [r]) else s :: place r rest

/-- The reactions up to `r` once those before it have been split. -/
def splitNext (earlier : List (Reaction String Scalar)) (r : Reaction String Scalar) : List (Reaction String Scalar) :=
  if r.reverse = [] then earlier ++ [r] else place r earlier

lemma reverse_eq_nil_of_mem_directions {r s : Reaction String Scalar} (h : s ∈ directions r) : s.reverse = [] := by
  unfold directions at h
  split at h
  · rename_i hr
    rw [mem_singleton.1 h, hr]
  · simp only [mem_cons, not_mem_nil, or_false] at h
    rcases h with rfl | rfl
    · rfl
    · rfl

lemma length_place (r : Reaction String Scalar) (earlier : List (Reaction String Scalar)) :
    (place r earlier).length = earlier.length + 2 := by
  induction earlier with
  | nil => rfl
  | cons s rest ih =>
    unfold place
    split
    · simp
    · simp [ih]

lemma length_lt_splitNext (earlier : List (Reaction String Scalar)) (r : Reaction String Scalar) :
    earlier.length < (splitNext earlier r).length := by
  unfold splitNext
  split
  · simp
  · rw [length_place]
    omega

/-! ## The search for the place -/

/-- Changes the first member with a property and puts another one behind it. -/
def changeFirst {α : Type} (p : α → Bool) (f : α → α) (y : α) : List α → List α
  | [] => []
  | x :: rest => if p x then f x :: y :: rest else x :: changeFirst p f y rest

lemma insertIdx_modify_findIdx {α : Type} {p : α → Bool} {f : α → α} {y : α} {xs : List α}
    (h : ∃ x ∈ xs, p x = true) :
    (xs.modify (xs.findIdx p) f).insertIdx (xs.findIdx p + 1) y = changeFirst p f y xs := by
  induction xs with
  | nil => simp at h
  | cons x rest ih =>
    by_cases hx : p x = true
    · simp [findIdx_cons, changeFirst, hx]
    · have hr : ∃ z ∈ rest, p z = true := by
        obtain ⟨z, hz, hpz⟩ := h
        rcases mem_cons.1 hz with rfl | hz
        · exact absurd hpz hx
        · exact ⟨z, hz, hpz⟩
      simp [findIdx_cons, changeFirst, hx, ih hr]

def numberedFrom (first : ℕ) (rs : List (Reaction String Scalar)) : List Tagged :=
  (rs.zipIdx first).map fun p => ⟨p.2, p.1⟩

lemma numberedFrom_cons (first : ℕ) (r : Reaction String Scalar) (rs : List (Reaction String Scalar)) :
    numberedFrom first (r :: rs) = ⟨first, r⟩ :: numberedFrom (first + 1) rs := rfl

variable {n : ℕ}

/-- What the search does to a list in which only the reaction `r` has the tag sought. -/
lemma changeFirst_tagged (tag : ℕ) (r : Reaction String Scalar) (earlier rest : List Tagged)
    (h : ∀ t ∈ earlier, t.tag ≠ n) : ∃ placed : List Tagged, changeFirst (fun s => s.tag == n || s.reaction.resembles r)
        (fun s => { s with reaction := forwardOnly s.reaction }) ⟨tag, backward r⟩
        (earlier ++ ⟨n, r⟩ :: rest) = placed ++ rest ∧
      placed.map (·.reaction) = place r (earlier.map (·.reaction)) ∧
      ∀ t ∈ placed, t.tag = tag ∨ t.tag = n ∨ ∃ s ∈ earlier, s.tag = t.tag := by
  induction earlier with
  | nil =>
    refine ⟨[⟨n, forwardOnly r⟩, ⟨tag, backward r⟩], ?_, rfl, ?_⟩
    · simp [changeFirst]
    · simp
  | cons s earlier ih =>
    have hs : s.tag ≠ n := h s mem_cons_self
    by_cases hr : s.reaction.resembles r = true
    · refine ⟨⟨s.tag, forwardOnly s.reaction⟩ :: ⟨tag, backward r⟩ :: (earlier ++ [⟨n, r⟩]), ?_, ?_, ?_⟩
      · simp [changeFirst, hr]
      · simp [place, hr]
      · intro t ht
        simp only [mem_cons, mem_append, not_mem_nil, or_false] at ht
        rcases ht with rfl | rfl | ht | rfl
        · exact .inr (.inr ⟨s, mem_cons_self, rfl⟩)
        · exact .inl rfl
        · exact .inr (.inr ⟨t, mem_cons_of_mem _ ht, rfl⟩)
        · exact .inr (.inl rfl)
    · obtain ⟨placed, heq, hm, htg⟩ := ih fun t ht => h t (mem_cons_of_mem _ ht)
      refine ⟨s :: placed, ?_, ?_, ?_⟩
      · simp [changeFirst, hs, hr, heq]
      · simp [place, hr, hm]
      · intro t ht
        rcases mem_cons.1 ht with rfl | ht
        · exact .inr (.inr ⟨t, mem_cons_self, rfl⟩)
        · rcases htg t ht with h1 | h1 | ⟨u, hu, h1⟩
          · exact .inl h1
          · exact .inr (.inl h1)
          · exact .inr (.inr ⟨u, mem_cons_of_mem _ hu, h1⟩)

variable {r : Reaction String Scalar}

/-- One step of the reader: the reaction with number `n` follows those that are done. -/
lemma splitReverse_step (hr : SoundReaction r)
    (earlier rest : List Tagged) (h : ∀ t ∈ earlier, t.tag ≠ n) : ∃ placed : List Tagged,
      splitReverse (earlier ++ ⟨n, r⟩ :: rest) n = placed ++ rest ∧
      placed.map (·.reaction) = splitNext (earlier.map (·.reaction)) r ∧
      ∀ t ∈ placed, t.tag = (earlier ++ ⟨n, r⟩ :: rest).length ∨ t.tag = n ∨ ∃ s ∈ earlier, s.tag = t.tag := by
  have hf : (earlier ++ ⟨n, r⟩ :: rest).find? (·.tag == n) = some ⟨n, r⟩ := by
    have hn : earlier.find? (·.tag == n) = none := by
      simpa using h
    simp [List.find?_append, hn]
  unfold splitReverse splitNext
  rw [hf]
  rcases hrv : r.reverse with _ | ⟨A, _ | ⟨b, _ | ⟨E, more⟩⟩⟩
  · -- nothing to split
    refine ⟨earlier ++ [⟨n, r⟩], by simp [hrv], by simp, ?_⟩
    intro t ht
    rcases mem_append.1 ht with ht | ht
    · exact .inr (.inr ⟨t, ht, rfl⟩)
    · exact .inr (.inl (by rw [mem_singleton.1 ht]))
  · have := hr.reverse
    simp [hrv] at this
  · have := hr.reverse
    simp [hrv] at this
  · have hb : reverseReaction r A b E = backward r := by simp [backward, hrv]
    obtain ⟨placed, heq, hm, htg⟩ := changeFirst_tagged (earlier ++ ⟨n, r⟩ :: rest).length r earlier rest h
    refine ⟨placed, ?_, ?_, htg⟩
    · rw [← heq, ← insertIdx_modify_findIdx ⟨⟨n, r⟩, by simp, by simp⟩]
      simp [hrv, hb, forwardOnly]
    · rw [hm, if_neg (by simp)]

/-- The whole run: each reaction in turn is split behind those before it. -/
lemma splitReverse_run (rest : List (Reaction String Scalar))
    (hsn : ∀ r ∈ rest, SoundReaction r) (k : ℕ) (earlier : List Tagged) (hk : k + rest.length = n)
    (hln : k ≤ earlier.length) (htg : ∀ t ∈ earlier, t.tag < k ∨ n ≤ t.tag) :
    ((List.range' k rest.length).foldl splitReverse (earlier ++ numberedFrom k rest)).map (·.reaction)
      = rest.foldl splitNext (earlier.map (·.reaction)) := by
  induction rest generalizing k earlier with
  | nil => simp [numberedFrom]
  | cons r rest ih =>
    have hl : (numberedFrom (k + 1) rest).length = rest.length := by simp [numberedFrom]
    rw [length_cons] at hk
    have hn : ∀ t ∈ earlier, t.tag ≠ k := by
      intro t ht
      have := htg t ht
      omega
    obtain ⟨placed, hst, hm, hta⟩ := splitReverse_step (hsn r mem_cons_self) earlier (numberedFrom (k + 1) rest) hn
    rw [numberedFrom_cons, length_cons, List.range'_succ, foldl_cons, foldl_cons, hst, ← hm]
    refine ih (fun x hx => hsn x (mem_cons_of_mem _ hx)) (k + 1) placed (by omega) ?_ ?_
    · have := length_lt_splitNext (earlier.map (·.reaction)) r
      rw [← hm, length_map, length_map] at this
      omega
    · intro t ht
      rcases hta t ht with h1 | h1 | ⟨s, hs, h1⟩
      · rw [length_append, length_cons, hl] at h1
        omega
      · omega
      · have := htg s hs
        omega

variable {rs : List (Reaction String Scalar)}

lemma split_eq (h : ∀ r ∈ rs, SoundReaction r) : splitAllReverse rs = rs.foldl splitNext [] := by
  have := splitReverse_run rs h 0 [] (Nat.zero_add _) (Nat.zero_le _) (by simp)
  rw [nil_append, map_nil, ← range_eq_range'] at this
  exact this

/-! ## Invariants of the splitting -/

variable {earlier : List (Reaction String Scalar)} {P : Reaction String Scalar → Prop}

/-- A property that both directions inherit holds after the splitting. -/
lemma place_all (hf : ∀ r, P r → P (forwardOnly r)) (hb : ∀ r, P r → P (backward r)) (hr : P r)
    (h : ∀ s ∈ earlier, P s) : ∀ s ∈ place r earlier, P s := by
  induction earlier with
  | nil => simp [place, hf r hr, hb r hr]
  | cons s rest ih =>
    rw [forall_mem_cons] at h
    unfold place
    split
    · refine forall_mem_cons.2 ⟨hf s h.1, forall_mem_cons.2 ⟨hb r hr, ?_⟩⟩
      exact forall_mem_append.2 ⟨h.2, forall_mem_singleton.2 hr⟩
    · exact forall_mem_cons.2 ⟨h.1, ih h.2⟩

lemma splitAllReverse_all (hs : ∀ r ∈ rs, SoundReaction r) (hf : ∀ r, P r → P (forwardOnly r))
    (hb : ∀ r, P r → P (backward r)) (h : ∀ r ∈ rs, P r) : ∀ r ∈ splitAllReverse rs, P r := by
  rw [split_eq hs]
  refine List.foldlRecOn rs splitNext (motive := fun l => ∀ r ∈ l, P r) (by simp) ?_
  intro earlier ih r hr
  unfold splitNext
  split
  · simpa [or_imp, forall_and] using ⟨ih, h r hr⟩
  · exact place_all hf hb (h r hr) ih

/-! ## When the splitting is as intended -/

/-- No reaction with reverse parameters comes after one that resembles it, the directions of split
reactions included. -/
def Apart (rs : List (Reaction String Scalar)) : Prop := ∀ front r back, rs = front ++ r :: back → r.reverse ≠ [] →
    ∀ s ∈ front.flatMap directions, s.resembles r = false

def Unsplit (rs : List (Reaction String Scalar)) : Prop := ∃ r ∈ rs, r.reverse ≠ []

lemma apart_concat : Apart (rs ++ [r]) ↔
      Apart rs ∧ (r.reverse ≠ [] → ∀ s ∈ rs.flatMap directions, s.resembles r = false) := by
  constructor
  · intro h
    refine ⟨fun front x back heq => h front x (back ++ [r]) (by rw [heq]; simp), ?_⟩
    exact h rs r [] rfl
  · rintro ⟨hrs, hr⟩ front x back heq
    rcases eq_nil_or_concat back with rfl | ⟨back', y, rfl⟩
    · obtain ⟨rfl, hx⟩ := append_inj' heq rfl
      cases hx
      exact hr
    · rw [concat_eq_append, ← cons_append, ← append_assoc] at heq
      exact hrs front x back' (append_inj' heq rfl).1

lemma place_of_none
    (h : ∀ s ∈ earlier, s.resembles r = false) : place r earlier = earlier ++ [forwardOnly r, backward r] := by
  induction earlier with
  | nil => rfl
  | cons s rest ih =>
    rw [forall_mem_cons] at h
    rw [place, if_neg (by simp [h.1]), ih h.2, cons_append]

lemma mem_place_of_some (h : ∃ s ∈ earlier, s.resembles r = true) : r ∈ place r earlier := by
  induction earlier with
  | nil => simp at h
  | cons s rest ih =>
    unfold place
    split
    · simp
    · rename_i hs
      refine mem_cons_of_mem _ (ih ?_)
      obtain ⟨x, hx, hxr⟩ := h
      rcases mem_cons.1 hx with rfl | hx
      · exact absurd hxr hs
      · exact ⟨x, hx, hxr⟩

/-- What is left over stays left over, if not at the same reaction. -/
lemma Unsplit.next (h : Unsplit earlier) (r : Reaction String Scalar) : Unsplit (splitNext earlier r) := by
  obtain ⟨s, hs, hrv⟩ := h
  unfold splitNext
  split
  · exact ⟨s, mem_append_left _ hs, hrv⟩
  · rename_i hr
    by_cases hsm : ∃ x ∈ earlier, x.resembles r = true
    · exact ⟨r, mem_place_of_some hsm, hr⟩
    · rw [place_of_none (by simpa using hsm)]
      exact ⟨s, mem_append_left _ hs, hrv⟩

lemma splitNext_of_apart
    (h : r.reverse ≠ [] → ∀ s ∈ earlier, s.resembles r = false) : splitNext earlier r = earlier ++ directions r := by
  unfold splitNext directions
  split
  · rfl
  · rename_i hr
    exact place_of_none (h hr)

/-- Either every reaction is split in its place, or reverse parameters are left over. -/
lemma splitNext_cases (rs : List (Reaction String Scalar)) :
    (Apart rs ∧ rs.foldl splitNext [] = rs.flatMap directions) ∨ (¬ Apart rs ∧ Unsplit (rs.foldl splitNext [])) := by
  induction rs using List.reverseRecOn with
  | nil => exact .inl ⟨by rintro front r back h; simp at h, rfl⟩
  | append_singleton rs r ih =>
    rw [foldl_concat, apart_concat]
    rcases ih with ⟨hrs, heq⟩ | ⟨hrs, hl⟩
    · by_cases hr : r.reverse ≠ [] → ∀ s ∈ rs.flatMap directions, s.resembles r = false
      · refine .inl ⟨⟨hrs, hr⟩, ?_⟩
        rw [heq, splitNext_of_apart hr, flatMap_append, flatMap_singleton]
      · refine .inr ⟨fun h => hr h.2, ?_⟩
        push Not at hr
        obtain ⟨hrv, s, hs, hre⟩ := hr
        rw [heq, splitNext, if_neg hrv]
        exact ⟨r, mem_place_of_some ⟨s, hs, by simpa using hre⟩, hrv⟩
    · exact .inr ⟨fun h => hrs h.1, hl.next r⟩

lemma not_unsplit_directions (rs : List (Reaction String Scalar)) : ¬ Unsplit (rs.flatMap directions) := by
  rintro ⟨s, hs, hrv⟩
  obtain ⟨r, -, hr⟩ := mem_flatMap.1 hs
  exact hrv (reverse_eq_nil_of_mem_directions hr)

lemma split_eq_directions_iff
    (h : ∀ r ∈ rs, SoundReaction r) : splitAllReverse rs = rs.flatMap directions ↔ Apart rs := by
  rw [split_eq h]
  rcases splitNext_cases rs with ⟨ha, hs⟩ | ⟨ha, hl⟩
  · exact ⟨fun _ => ha, fun _ => hs⟩
  · constructor
    · intro hi
      exact absurd (hi ▸ hl) (not_unsplit_directions rs)
    · intro h
      exact absurd h ha

lemma split_reverse_eq_nil_iff
    (h : ∀ r ∈ rs, SoundReaction r) : (∀ r ∈ splitAllReverse rs, r.reverse = []) ↔ Apart rs := by
  rw [split_eq h]
  rcases splitNext_cases rs with ⟨ha, hs⟩ | ⟨ha, r, hr, hrv⟩
  · refine ⟨fun _ => ha, fun _ r hr => ?_⟩
    by_contra hrv
    exact not_unsplit_directions rs ⟨r, hs ▸ hr, hrv⟩
  · exact ⟨fun hal => absurd (hal r hr) hrv, fun h => absurd h ha⟩

/-- What a mechanism file that is accepted does with reverse parameters. Its reactions are split one
after the other, each behind the first earlier one that resembles it. They are the intended ones if
and only if no such earlier reaction exists, and if one exists, reverse parameters are left over. -/
theorem reverse_directions {text : String} {thermo : Option (Except Fault String)} {s s' : Session}
    {m : Mechanism} (h : (readMechanism text thermo).start s = (.ok m, s')) :
    ∃ rs s₁, (listedReactions (Text.lines text)).start s = (.ok rs, s₁) ∧ m.reactions = rs.foldl splitNext [] ∧
      (m.reactions = rs.flatMap directions ↔ Apart rs) ∧ ((∀ r ∈ m.reactions, r.reverse = []) ↔ Apart rs) := by
  obtain ⟨d, s₁, rs, s₂, s₃, species, hd, hrs, -, -, rfl⟩ := readMechanismLines_eq_ok h
  have hlisted : (listedReactions (Text.lines text)).start s = (.ok rs, s₂) :=
    Reader.start_bind_eq_ok.2 ⟨d, s₁, hd, hrs⟩
  have hsound : ∀ r ∈ rs, SoundReaction r := listedReactions_sound _ s rs s₂ hlisted
  exact ⟨rs, s₂, hlisted, split_eq hsound, split_eq_directions_iff hsound, split_reverse_eq_nil_iff hsound⟩

/-! ## A duplicate that is not split -/

/-- A line of `n` coefficients that are zero, in columns of fifteen characters. -/
def zeroLine (n : ℕ) : List Char := (List.replicate n ('0' :: List.replicate 14 ' ')).flatten ++ ['\n']

/-- The database entry of a species with one hydrogen atom and a name of one letter. -/
def hydrogenEntry (name : Char) : List (List Char) :=
  [name :: List.replicate 23 ' ' ++ "H   1".toList ++ List.replicate 16 ' ' ++
    "300. 5000. 1000.\n".toList, zeroLine 5, zeroLine 5, zeroLine 4]

/-- Two isomers with a reaction that is given twice, with reverse parameters the second time. -/
def duplicateFile : List (List Char) :=
  ["SPECIES A B\n".toList, "END\n".toList, "THERMO\n".toList, "300. 1000. 5000.\n".toList] ++
    hydrogenEntry 'A' ++ hydrogenEntry 'B' ++ ["REACTIONS\n".toList, "A<=>B 1.0 0.0 0.0\n".toList, "DUP\n".toList,
      "A<=>B 1.0 0.0 0.0\n".toList, "REV /2.0 0.0 0.0/\n".toList, "DUP\n".toList, "END\n".toList]

lemma readMechanism_flatten {file : List (List Char)} (h : file.all Text.isLine = true) :
    readMechanism (String.ofList file.flatten) none = readMechanismLines file none := by
  rw [readMechanism, Text.lines_flatten h, Option.map_none]

lemma exists_reading {γ : Type} {file : List (List Char)} {s : Session} {f : Mechanism → γ} {c : γ}
    (hl : file.all Text.isLine = true) (h : ((readMechanismLines file none).start s).1.toOption.map f = some c) :
    ∃ m s', (readMechanism (String.ofList file.flatten) none).start s = (.ok m, s') ∧ f m = c := by
  rw [readMechanism_flatten hl]
  exact Reader.exists_of_seen h

/-- The first of the two reactions is split in place of the second one. -/
theorem duplicate_unsplit : ∃ m s' rs,
      (readMechanism (String.ofList duplicateFile.flatten) none).start {} = (.ok m, s') ∧
      m.reactions.map (·.reverse.length) = [0, 0, 3] ∧
      m.reactions = rs.foldl splitNext [] ∧ m.reactions ≠ rs.flatMap directions ∧ ¬ Apart rs := by
  have hseen : ((readMechanismLines duplicateFile none).start {}).1.toOption.map
      (fun m => m.reactions.map (·.reverse.length)) = some [0, 0, 3] := by
    decide +kernel
  obtain ⟨m, s', hrun, hlengths⟩ := exists_reading (by decide +kernel) hseen
  obtain ⟨rs, s₁, -, hsplit, hintended, hreverse⟩ := reverse_directions hrun
  have hapart : ¬ Apart rs := by
    intro hapart
    have hzero : m.reactions.map (·.reverse.length) = m.reactions.map fun _ => 0 :=
      map_congr_left fun r hr => by rw [hreverse.2 hapart r hr, length_nil]
    have hthree : 3 ∈ m.reactions.map fun _ => 0 := by
      rw [← hzero, hlengths]
      simp
    simp at hthree
  exact ⟨m, s', rs, hrun, hlengths, hsplit, fun h => hapart (hintended.1 h), hapart⟩

end Kinetics.Reading
