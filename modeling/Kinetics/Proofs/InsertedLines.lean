import Kinetics.Proofs.DeclaredWeights
import Kinetics.Proofs.SectionLayouts
import Kinetics.Proofs.ThermoEntries
/-!
# Blank lines and comments

A file is read by two readers. The reader of sections passes over blank lines and comments wherever
they stand. The reader of databases does so only where an entry may begin: the four lines of an entry
stand together, and the line behind the header is looked at before any line is passed over. So lines
may be inserted anywhere else (`inserted_lines`).
-/

open List

namespace Kinetics.Reading

open Text

/-! ## Inserted lines -/

/-- Further lines, all of them blank or comments. -/
inductive Padded : List (List Char) → List (List Char) → Prop
  | nil : Padded [] []
  | keep {line : List Char} {xs ys : List (List Char)} (h : Padded xs ys) : Padded (line :: xs) (line :: ys)
  | insert {line : List Char} {xs ys : List (List Char)} (hline : isIgnored line = true)
      (h : Padded xs ys) : Padded xs (line :: ys)

/-- An entry after which reading goes on: it does not complete the species. -/
def Continues (w : Weights Scalar) (common : Option (List Float)) (e : Entry)
    (species species' : List (Species Scalar)) : Prop :=
  readEntries w common (e.lines ++ ["END".toList]) species = .ok species' ∧
    (species.any isWeightless = true → species'.any isWeightless = true)

/-- Further lines among the entries of a database, none of them inside an entry that is read. What
stands where reading has stopped does not matter. -/
inductive PaddedEntries (w : Weights Scalar) (common : Option (List Float)) :
    List (Species Scalar) → List (List Char) → List (List Char) → Prop
  | short {species : List (Species Scalar)} {xs : List (List Char)} (h : xs.length < 4) :
      PaddedEntries w common species xs xs
  | closed {species : List (Species Scalar)} {line : List Char} {xs ys : List (List Char)}
      (hline : opensWith "end" line = true) : PaddedEntries w common species (line :: xs) (line :: ys)
  | keep {species : List (Species Scalar)} {line : List Char} {xs ys : List (List Char)}
      (hline : isIgnored line = true) (h : PaddedEntries w common species xs ys) :
      PaddedEntries w common species (line :: xs) (line :: ys)
  | insert {species : List (Species Scalar)} {line : List Char} {xs ys : List (List Char)}
      (hline : isIgnored line = true) (h : PaddedEntries w common species xs ys) :
      PaddedEntries w common species xs (line :: ys)
  | entry {species : List (Species Scalar)} (e : Entry) {xs ys : List (List Char)}
      (h : ∀ species', Continues w common e species species' → PaddedEntries w common species' xs ys) :
      PaddedEntries w common species (e.lines ++ xs) (e.lines ++ ys)

/-- Further lines behind the header of a database. A line with common temperatures stays where it is.
Without one the line behind the header may be a comment, but not a blank line. -/
inductive PaddedDatabase (w : Weights Scalar) (species : List (Species Scalar)) :
    List (List Char) → List (List Char) → Prop
  | common {line : List Char} {xs ys : List (List Char)} (hline : isNumbered line = true)
      (h : ∀ temperatures, readNumbers line = .ok temperatures → PaddedEntries w (some temperatures) species xs ys) :
      PaddedDatabase w species (line :: xs) (line :: ys)
  | own {xs ys : List (List Char)} (hxs : isNumbered (xs.headD []) = false)
      (hshown : fields (xs.headD []) ≠ []) (hys : fields (ys.headD []) ≠ [])
      (h : PaddedEntries w none species xs ys) : PaddedDatabase w species xs ys

/-- Further lines in a file whose database is read for some species. -/
def PaddedFor (w : Weights Scalar) (species : List (Species Scalar)) (xs ys : List (List Char)) : Prop :=
  Padded xs ys ∧ ∀ entries entries', afterOpening xs = some entries →
    afterOpening ys = some entries' → PaddedDatabase w species entries entries'

/-- Further lines in a mechanism file and in a separate database, for a reading that starts in a
session. What is inside an entry depends on the species at the time when the database is read. -/
structure PaddedInput (start : Session) (file file' : List (List Char))
    (thermo thermo' : Option (List (List Char))) : Prop where
  lines : Padded file file'
  opened : ∀ front raw back d s, file = front ++ raw :: back → openingOf raw = .thermo →
    (front.foldlM (readLine file) {}).start start = (.ok d, s) → PaddedFor s.weights d.species file file'
  separate : Option.Rel (fun xs ys => ∀ d s, (file.foldlM (readLine file) {}).start start = (.ok d, s) →
    d.species.any isWeightless = true → PaddedFor s.weights d.species xs ys) thermo thermo'

/-! ## Databases -/

section Databases
variable {w : Weights Scalar} {common : Option (List Float)} {species : List (Species Scalar)}
  {xs ys : List (List Char)}

variable {line : List Char}

lemma readEntries_closed (h : opensWith "end" line = true) :
    readEntries w common (line :: xs) species = .ok species := by
  rw [readEntries, if_pos h]

lemma head_of_isIgnored {c : Char} (h : isIgnored (c :: line) = true) : isBlank c = true ∨ c = '!' := by
  by_cases hc : isBlank c = true
  · exact .inl hc
  · unfold isIgnored stripLeft at h
    rw [dropWhile_cons_of_neg hc] at h
    exact .inr (by simpa using h)

lemma opensWith_end_of_isIgnored (h : isIgnored line = true) : opensWith "end" line = false := by
  rw [Bool.eq_false_iff]
  intro he
  cases line with
  | nil => cases he
  | cons c line =>
    have hl : lower [c] = [c] := by
      obtain hc | rfl := head_of_isIgnored h
      · exact lower_blank hc
      · decide
    have hw := beq_iff_eq.1 he
    rw [show (c :: line).take "end".length = c :: line.take 2 from rfl, lower_cons, hl] at hw
    obtain rfl : c = 'e' := (List.cons.inj hw).1
    obtain hc | hc := head_of_isIgnored h
    · exact absurd hc (by decide)
    · exact absurd hc (by decide)

lemma readEntries_ignored (h : isIgnored line = true) :
    readEntries w common (line :: xs) species = readEntries w common xs species := by
  rw [readEntries, if_neg (by simp [opensWith_end_of_isIgnored h]), if_pos h]

lemma readEntries_entry_congr {e : Entry} (h : ∀ species', Continues w common e species species' →
      readEntries w common ys species' = readEntries w common xs species') :
    readEntries w common (e.lines ++ ys) species = readEntries w common (e.lines ++ xs) species := by
  have he : opensWith "end" "END".toList = true := by decide
  rw [readEntries_lines, readEntries_lines]
  cases hp : species.findIdx? (·.name == e.name) with
  | none => exact h species ⟨by simp only [readEntries_lines, hp, readEntries_closed he], id⟩
  | some i =>
    obtain ⟨hi, -⟩ := List.findIdx?_eq_some_iff_getElem.1 hp
    have hs := entryAt_eq_ok.2 (List.getElem?_eq_getElem hi)
    simp only [hs, ok_bind]
    split_ifs with hw
    · cases hr : readEntry w common species[i] e.first e.second e.third e.fourth with
      | error fault => rfl
      | ok s' =>
        simp only [ok_bind]
        split_ifs with ha
        · refine h _ ⟨?_, fun _ => ha⟩
          simp only [readEntries_lines, hp, hs, ok_bind, hw, if_true, hr, ha, readEntries_closed he]
        · rfl
    · exact h species ⟨by simp only [readEntries_lines, hp, hs, ok_bind, if_neg hw, readEntries_closed he], id⟩

lemma PaddedEntries.readEntries_eq (h : PaddedEntries w common species xs ys) :
    readEntries w common ys species = readEntries w common xs species := by
  induction h with
  | short => rfl
  | closed hl => rw [readEntries_closed hl, readEntries_closed hl]
  | keep hl _ ih => rw [readEntries_ignored hl, readEntries_ignored hl, ih]
  | insert hl _ ih => rw [readEntries_ignored hl, ih]
  | entry e _ ih => exact readEntries_entry_congr ih

lemma commonTemperatures_none (h : isNumbered (xs.headD []) = false)
    (hs : fields (xs.headD []) ≠ []) : commonTemperatures xs = .ok (none, xs) := by
  unfold commonTemperatures isNumbered at *
  dsimp only
  cases hf : fields (xs.headD []) with
  | nil => exact absurd hf hs
  | cons word rest =>
    rw [hf] at h
    dsimp only
    rw [if_neg (by simpa using h)]
    rfl

lemma isNumbered_of_isIgnored (h : isIgnored line = true) : isNumbered line = false := by
  unfold isNumbered
  cases hf : fields line with
  | nil => rfl
  | cons word rest =>
    obtain ⟨u, t, rfl, hu, -, -, hne, hw⟩ := exists_first_field hf
    obtain ⟨c, word, rfl⟩ := exists_cons_of_ne_nil hne
    have hc : isBlank c = false := hw c mem_cons_self
    unfold isIgnored at h
    rw [stripLeft_blanks_append hu, cons_append, stripLeft, dropWhile_cons_of_neg (by simp [hc])] at h
    obtain rfl : c = '!' := by simpa using h
    rfl

lemma PaddedEntries.isNumbered_head (h : PaddedEntries w common species xs ys)
    (hxs : isNumbered (xs.headD []) = false) : isNumbered (ys.headD []) = false := by
  cases h with
  | insert hl => exact isNumbered_of_isIgnored hl
  | short | closed | keep | entry => exact hxs

lemma Padded.afterOpening (h : Padded xs ys) : (afterOpening xs = none ∧ afterOpening ys = none) ∨
      ∃ entries entries', afterOpening xs = some entries ∧ afterOpening ys = some entries' := by
  induction h with
  | nil => exact .inl ⟨rfl, rfl⟩
  | @keep line xs ys _ ih =>
    unfold Reading.afterOpening
    split_ifs
    · exact .inr ⟨xs, ys, rfl, rfl⟩
    · exact ih
  | insert hl _ ih =>
    rwa [show ∀ line ys, isIgnored line = true → Reading.afterOpening (line :: ys) = Reading.afterOpening ys from
      fun line ys h => by rw [Reading.afterOpening, if_neg (by simp [h])], ]
    exact hl

lemma PaddedFor.readThermo_eq (h : PaddedFor w species xs ys) :
    readThermo w ys species = readThermo w xs species := by
  unfold readThermo
  obtain ⟨hxs, hys⟩ | ⟨entries, entries', hxs, hys⟩ := h.1.afterOpening
  · rw [hxs, hys]
  · rw [hxs, hys]
    dsimp only
    cases h.2 _ _ hxs hys with
    | common hl h =>
      rw [commonTemperatures_of_isNumbered hl, commonTemperatures_of_isNumbered hl]
      cases ht : readNumbers _ with
      | error => rfl
      | ok temperatures => exact (h temperatures ht).readEntries_eq
    | own hxs hs hys h =>
      rw [commonTemperatures_none hxs hs, commonTemperatures_none (h.isNumbered_head hxs) hys]
      exact h.readEntries_eq

end Databases

/-! ## Mechanism files -/

variable {s : Session}

lemma Reader.start_bind_congr {β γ : Type} {r r' : Reader β} {f g : β → Reader γ} (hr : r'.start s = r.start s)
    (h : ∀ a s', r.start s = (.ok a, s') → (g a).start s' = (f a).start s') :
    (r' >>= g).start s = (r >>= f).start s := by
  rcases hs : r.start s with ⟨e | a, s'⟩
  · rw [start_bind_of_error hs, start_bind_of_error (hr.trans hs)]
  · rw [start_bind_of_ok hs, start_bind_of_ok (hr.trans hs), h a s' hs]

section Files
variable {start : Session} {file file' : List (List Char)} {thermo thermo' : Option (List (List Char))}

variable {d : Draft}

lemma readLine_congr {raw : List Char} (h : openingOf raw = .thermo → PaddedFor s.weights d.species file file') :
    (readLine file' d raw).start s = (readLine file d raw).start s := by
  rw [readLine_eq, readLine_eq]
  cases hr : openingOf raw with
  | thermo =>
    refine Reader.start_bind_congr rfl fun a s' hs => ?_
    cases hs
    rw [(h hr).readThermo_eq]
  | ignored | elements | species | reactions | ending | content => rfl

/-- Where a reading stands after some lines of the file, it goes on in the same way. -/
lemma PaddedInput.readLines_eq (h : PaddedInput start file file' thermo thermo') {front xs ys : List (List Char)}
    (hl : Padded xs ys) (hf : file = front ++ xs)
    (hfr : (front.foldlM (readLine file) {}).start start = (.ok d, s)) :
    (ys.foldlM (readLine file') d).start s = (xs.foldlM (readLine file) d).start s := by
  induction hl generalizing front d s with
  | nil => rfl
  | @keep raw xs ys _ ih =>
    refine Reader.start_bind_congr (readLine_congr fun hr => h.opened _ _ _ _ _ hf hr hfr)
      fun d' s' hd' => ih (by rw [hf, append_cons]) ?_
    rw [foldlM_append, Reader.start_bind_of_ok hfr, foldlM_cons, Reader.start_bind_of_ok hd']
    rfl
  | @insert raw xs ys hln _ ih =>
    rw [foldlM_cons, readLine_eq, show openingOf raw = .ignored by simp [openingOf, hln]]
    exact ih hf hfr

lemma completeSpecies_congr {xs ys : List (List Char)} {species : List (Species Scalar)}
    (h : species.any isWeightless = true → PaddedFor s.weights species xs ys) :
    (completeSpecies (some (.ok ys)) species).start s = (completeSpecies (some (.ok xs)) species).start s := by
  unfold completeSpecies
  split_ifs with ha
  · refine Reader.start_bind_congr rfl fun a s' hs => ?_
    cases hs
    refine (Reader.start_bind_of_ok rfl).trans (Eq.trans ?_ (Reader.start_bind_of_ok rfl).symm)
    rw [(h ha).readThermo_eq]
  · rfl

/-- What follows the last line looks at the separate database alone. -/
lemma PaddedInput.readMechanismLines_eq (h : PaddedInput start file file' thermo thermo') :
    (readMechanismLines file' (thermo'.map .ok)).start start =
      (readMechanismLines file (thermo.map .ok)).start start := by
  have hs : (List.foldlM (readLine file) {} []).start start = (.ok {}, start) := rfl
  refine Reader.start_bind_congr (h.readLines_eq h.lines rfl hs) fun d s hd => ?_
  refine Reader.start_bind_congr rfl fun reactions s₁ hsh => ?_
  refine Reader.start_bind_congr rfl fun _ s₂ hc => ?_
  refine Reader.start_bind_congr ?_ fun _ _ _ => rfl
  have hw : s₂.weights = s.weights := by
    have h₁ := (mapM_quiet (fun p : Reaction String Scalar × ℕ => shapeCoefficients_quiet p.2 p.1)
      d.reactions.zipIdx).weights_eq s
    have h₂ := (forM_quiet (fun p : Reaction String Scalar × ℕ =>
      checkNames_quiet (d.species.map (·.name)) p.2 p.1) reactions.zipIdx).weights_eq s₁
    rw [hsh] at h₁
    rw [hc] at h₂
    exact h₂.trans h₁
  have hsr := h.separate
  cases hsr with
  | none => rfl
  | some hr => exact completeSpecies_congr fun ha => hw ▸ hr d s hd ha

end Files

/-- Blank lines and comments may be inserted between any two lines, but not inside an entry that is
read and not before the common temperatures of a database. A blank line behind the header of a
database makes its reading fail. -/
theorem inserted_lines (text : String) : (∀ (start : Session) (text' : String) (thermo thermo' : Option String),
      PaddedInput start (Text.lines text) (Text.lines text') (thermo.map Text.lines) (thermo'.map Text.lines) →
        (readMechanism text' (thermo'.map .ok)).start start = (readMechanism text (thermo.map .ok)).start start) ∧
    ∀ (w : Weights Scalar) (species : List (Species Scalar)) (blank : List Char)
      (rest : List (List Char)), afterOpening (Text.lines text) = some (blank :: rest) →
        fields blank = [] → readThermo w (Text.lines text) species = .error .missingEntry := by
  constructor
  · intro start text' thermo thermo' h
    have hread := h.readMechanismLines_eq
    rw [Option.map_map, Option.map_map] at hread
    unfold readMechanism
    rw [Option.map_map, Option.map_map]
    exact hread
  · intro w species blank rest hopening hblank
    unfold readThermo commonTemperatures
    rw [hopening]
    dsimp only
    rw [headD_cons, hblank]
    rfl

/-- A mechanism with its own database, with some lines in four places. -/
def spacedFile (gap : List (List Char)) : List (List Char) :=
  gap ++ ["ELEM H\n".toList, "SPEC A\n".toList, "END\n".toList] ++ gap ++
    ["THERMO\n".toList, "300. 1000. 5000.\n".toList] ++ gap ++ atomEntry.lines ++ gap ++ ["END\n".toList]

def blankAndComment : List (List Char) := ["\n".toList, " ! thermo\n".toList]

theorem hydrogen_file_spaced : ∃ m s,
    (readMechanism (String.ofList (spacedFile []).flatten) none).start {} = (.ok m, s) ∧
      (readMechanism (String.ofList (spacedFile blankAndComment).flatten) none).start {} = (.ok m, s) ∧
      m.species.map (·.name) = ["A"] := by
  have hshort : Text.lines (String.ofList (spacedFile []).flatten) = spacedFile [] :=
    Text.lines_flatten (by decide +kernel)
  have hlong : Text.lines (String.ofList (spacedFile blankAndComment).flatten) =
      spacedFile blankAndComment := Text.lines_flatten (by decide +kernel)
  have hblank : isIgnored "\n".toList = true := by decide
  have hcomment : isIgnored " ! thermo\n".toList = true := by decide
  have hlines : Padded (spacedFile []) (spacedFile blankAndComment) :=
    .insert hblank (.insert hcomment (.keep (.keep (.keep (.insert hblank (.insert hcomment (.keep (.keep
      (.insert hblank (.insert hcomment (.keep (.keep (.keep (.keep
        (.insert hblank (.insert hcomment (.keep .nil)))))))))))))))))
  have hentries : ∀ w common species, PaddedEntries w common species (atomEntry.lines ++ ["END\n".toList])
      (blankAndComment ++ (atomEntry.lines ++ (blankAndComment ++ ["END\n".toList]))) :=
    fun w common species => .insert hblank (.insert hcomment (.entry _ fun _ _ =>
      .insert hblank (.insert hcomment (.closed (by decide)))))
  have hinput : PaddedInput {} (spacedFile []) (spacedFile blankAndComment) none none := by
    refine ⟨hlines, fun _ _ _ d s _ _ _ => ⟨hlines, ?_⟩, .none⟩
    rintro _ _ ⟨⟩ ⟨⟩
    exact .common (by decide) fun _ _ => hentries _ _ _
  rw [← hshort, ← hlong] at hinput
  have hsame := (inserted_lines _).1 {} _ none none hinput
  have hseen : ((readMechanismLines (spacedFile []) none).start {}).1.toOption.map
      (fun m => m.species.map (·.name)) = some ["A"] := by
    decide +kernel
  obtain ⟨m, s, hread, hm⟩ := exists_reading (by decide +kernel) hseen
  exact ⟨m, s, hread, hsame.trans hread, hm⟩

end Kinetics.Reading
