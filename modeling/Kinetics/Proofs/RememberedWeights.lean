import Kinetics.Proofs.DeclaredWeights
import Kinetics.Proofs.SectionLayouts
/-!
# Atomic weights that a session remembers

The weights that a reading leaves behind can be noticed by the next reading in the session. It does
so only if one of its databases asks for such an element before its own file has declared it
(`Settled`), and elements, reactions and the names of species never depend on what was read before
(`remembered_weights`).
-/

open List

namespace Kinetics.Reading

open Text

/-! ## Databases ask for few elements -/

/-- The elements that a line of a database can ask for. -/
def symbolsIn (line : List Char) : List String :=
  (pieces 5 (slice line 24 44)).map fun field => String.ofList (lower (strip (field.take 2)))

def symbolsOf (lines : List (List Char)) : Set String := {name | ∃ line ∈ lines, name ∈ symbolsIn line}

variable {v w : Weights Scalar}

lemma SameOn.of_subset {lines part : List (List Char)}
    (h : SameOn (symbolsOf lines) v w) (hp : part ⊆ lines) : SameOn (symbolsOf part) v w := by
  rintro name ⟨line, hl, hn⟩
  exact h name ⟨line, hp hl, hn⟩

lemma addElement_congr {sp : Species Scalar} {field : List Char}
    (h : v.get? (String.ofList (lower (strip (field.take 2)))) =
      w.get? (String.ofList (lower (strip (field.take 2))))) :
    addElement v sp field = addElement w sp field := by
  unfold addElement
  dsimp only
  rw [h]

lemma addElements_congr {fields : List (List Char)}
    (h : ∀ field ∈ fields, v.get? (String.ofList (lower (strip (field.take 2)))) =
      w.get? (String.ofList (lower (strip (field.take 2))))) (sp : Species Scalar) :
    fields.foldlM (addElement v) sp = fields.foldlM (addElement w) sp := by
  induction fields generalizing sp with
  | nil => rfl
  | cons field rest ih =>
    rw [forall_mem_cons] at h
    rw [foldlM_cons, foldlM_cons, addElement_congr h.1]
    congr 1
    funext sp'
    exact ih h.2 sp'

lemma readEntry_congr {first : List Char}
    (h : ∀ name ∈ symbolsIn first, v.get? name = w.get? name) (common : Option (List Float))
    (sp : Species Scalar) (second third fourth : List Char) : readEntry v common sp first second third fourth =
      readEntry w common sp first second third fourth := by
  unfold readEntry
  rw [addElements_congr fun field hf => h _ (mem_map_of_mem hf)]

lemma readEntries_congr (common : Option (List Float)) (lines : List (List Char)) (species : List (Species Scalar))
    (h : SameOn (symbolsOf lines) v w) : readEntries v common lines species = readEntries w common lines species := by
  fun_induction readEntries v common lines species with
  | case1 => rw [readEntries]
  | case2 line rest species he => rw [readEntries, if_pos he]
  | case3 line rest species he hig ih =>
    rw [readEntries, if_neg he, if_pos hig]
    exact ih (h.of_subset (subset_cons_self _ _))
  | case4 line rest species he hig name hn ih =>
    have hr := h.of_subset (subset_cons_of_subset line (drop_subset 3 rest))
    rw [readEntries, if_neg he, if_neg hig]
    dsimp only
    rw [show species.findIdx? (·.name == String.ofList (entryName line)) = none from hn]
    exact ih hr
  | case5 line rest species he hig name i hi ihSet ih =>
    have hr := h.of_subset (subset_cons_of_subset line (drop_subset 3 rest))
    have hf : ∀ name ∈ symbolsIn line, v.get? name = w.get? name := fun name hnm => h name ⟨line, mem_cons_self, hnm⟩
    rw [readEntries, if_neg he, if_neg hig]
    dsimp only
    rw [show species.findIdx? (·.name == String.ofList (entryName line)) = some i from hi]
    congr 1
    funext sp
    rw [readEntry_congr hf, ih hr]
    congr 2
    funext sp'
    rw [ihSet sp' hr]

lemma afterOpening_subset {lines rest : List (List Char)} (h : afterOpening lines = some rest) : rest ⊆ lines := by
  induction lines with
  | nil => cases h
  | cons line lines ih =>
    unfold afterOpening at h
    split at h
    · cases h
      exact subset_cons_self _ _
    · exact subset_cons_of_subset _ (ih h)

lemma commonTemperatures_subset (lines : List (List Char)) :
    Yields (fun p => p.2 ⊆ lines) (commonTemperatures lines) := by
  unfold commonTemperatures
  dsimp only
  split
  · exact yields_error _
  · split
    · exact yields_bind fun _ => yields_pure.2 (drop_subset _ _)
    · exact yields_pure.2 (List.Subset.refl _)

/-- A database gives the same with two tables that agree on the elements it can ask for. -/
lemma readThermo_congr {lines : List (List Char)}
    (h : SameOn (symbolsOf lines) v w) (species : List (Species Scalar)) :
    readThermo v lines species = readThermo w lines species := by
  unfold readThermo
  cases ho : afterOpening lines with
  | none => rfl
  | some rest =>
    dsimp only
    cases hc : commonTemperatures rest with
    | error e => rfl
    | ok p =>
      have hs : p.2 ⊆ lines := List.Subset.trans (commonTemperatures_subset rest p hc) (afterOpening_subset ho)
      exact readEntries_congr p.1 p.2 species (h.of_subset hs)

/-! ## What a reading leaves behind and when it does not notice the session -/

lemma readLine_writes {K : Set String} (file : List (List Char)) (d : Draft) (raw : List Char)
    (h : openingOf raw = .thermo → symbolsOf file ⊆ K) :
    Writes K (declaredIn [] (elementFields d.current raw)) (readLine file d raw) := by
  rw [readLine_eq]
  unfold elementFields
  cases hr : openingOf raw with
  | thermo =>
    refine writes_get (fun s => (quiet_lift _).bind fun _ => quiet_pure _) fun s t hst => ?_
    rw [readThermo_congr fun name hnm => hst name (h hr hnm)]
  | ignored => exact (quiet_pure _).of_empty
  | elements =>
    unfold readOpened openSection
    cases afterKeyword (trimmed raw) with
    | none => exact (quiet_pure _).of_empty
    | some rest => exact (readContent_writes { d with current := some .elements } rest).of_empty
  | species =>
    unfold readOpened openSection
    cases afterKeyword (trimmed raw) with
    | none => exact (quiet_pure _).of_empty
    | some rest => exact (readContent_writes { d with current := some .species } rest).of_empty
  | reactions => exact ((sectionUnit_quiet _).bind fun _ => quiet_pure _).of_empty
  | ending => exact (quiet_pure _).of_empty
  | content => exact (readContent_writes d _).of_empty

lemma readLines_writes {K : Set String} (file lines : List (List Char)) (d : Draft)
    (h : ∀ front raw back, lines = front ++ raw :: back → openingOf raw = .thermo →
      symbolsOf file ⊆ K ∪ declaredNames (declaredBy d.current front)) :
    Writes K (declaredBy d.current lines) (lines.foldlM (readLine file) d) := by
  induction lines generalizing K d with
  | nil => exact (quiet_pure d).of_empty
  | cons raw rest ih =>
    rw [foldlM_cons, declaredBy]
    refine (readLine_writes file d raw fun hrw => ?_).bind (readLine_section file d raw) ?_
    · have hf := h [] raw rest rfl hrw
      rwa [declaredBy, declaredNames_nil, Set.union_empty] at hf
    · intro d' hd'
      rw [← hd']
      refine ih d' fun front raw' back hr hr' => ?_
      have hf := h (raw :: front) raw' back (by rw [hr, cons_append]) hr'
      rwa [declaredBy, declaredNames_append, ← Set.union_assoc, ← hd'] at hf

lemma lift_bind_congr {β γ : Type} {x : Except Fault β} {f g : β → Reader γ}
    (h : ∀ a, x = .ok a → f a = g a) : (liftM x >>= f) = (liftM x >>= g) := by
  cases x with
  | error e => rfl
  | ok a => exact h a rfl

variable {thermo : Option (Except Fault (List (List Char)))}

/-- Only a separate database makes completing the species look at the table. -/
lemma completeSpecies_writes {K : Set String}
    (h : ∀ lines, thermo = some (.ok lines) → symbolsOf lines ⊆ K) (species : List (Species Scalar)) :
    Writes K [] (completeSpecies thermo species) := by
  unfold completeSpecies
  dsimp only
  split
  · split
    · refine writes_get (fun s => ?_) fun s t hst => lift_bind_congr fun entries he => ?_
      · refine (quiet_lift _).bind fun _ => (quiet_lift _).bind fun species' => ?_
        split
        · exact quiet_pure _
        · exact quiet_quit _ _
      · rw [readThermo_congr fun name hn => hst name (h entries (by rw [he]) hn)]
    · exact (quiet_of_forall fun _ => ⟨rfl, rfl⟩).of_empty
  · refine (quiet_pure _).bind fun species' => ?_
    split
    · exact (quiet_pure _).of_empty
    · exact (quiet_quit _ _).of_empty

/-- Every database that a reading opens asks only for elements of `K` and for those that the file
has declared by then. -/
structure Settled (K : Set String) (file : List (List Char))
    (thermo : Option (Except Fault (List (List Char)))) : Prop where
  opened : ∀ front raw back, file = front ++ raw :: back → openingOf raw = .thermo →
    symbolsOf file ⊆ K ∪ declaredNames (declaredBy none front)
  separate : ∀ lines, thermo = some (.ok lines) → symbolsOf lines ⊆ K ∪ declaredNames (declaredBy none file)

variable {file : List (List Char)}

lemma readMechanismLines_writes {K : Set String} (h : Settled K file thermo) :
    Writes K (declaredBy none file) (readMechanismLines file thermo) := by
  have hs := mapM_quiet (fun p : Reaction String Scalar × ℕ => shapeCoefficients_quiet p.2 p.1)
  have hn (d : Draft) := forM_quiet fun p : Reaction String Scalar × ℕ =>
    checkNames_quiet (d.species.map (·.name)) p.2 p.1
  rw [← append_nil (declaredBy none file)]
  refine (readLines_writes file file {} h.opened).bind (fun _ _ _ _ => trivial) fun d _ => ?_
  refine (hs _).bind fun rs => (hn d _).bind fun _ => ?_
  exact (completeSpecies_writes h.separate d.species).then_quiet fun _ => quiet_pure _

/-! ## What never depends on the session -/

/-- Two drafts that differ at most in the data of their species. -/
def Alike (d e : Draft) : Prop := ∃ species, e = { d with species } ∧ namesOf species = namesOf d.species

/-- Two readers whose results are alike, whatever the sessions were at the start. -/
def Parallel (r q : Reader Draft) : Prop :=
  ∀ s t d e s' t', r.start s = (.ok d, s') → q.start t = (.ok e, t') → Alike d e

variable {d e : Draft} {s t s' t' : Session} {ds : List (String × Scalar)}

section Parallel

lemma parallel_pure (h : Alike d e) : Parallel (pure d) (pure e) := by
  rintro s t _ _ _ _ ⟨⟩ ⟨⟩
  exact h

lemma Writes.unique {β : Type} {r : Reader β} (h : Writes ∅ ds r)
    {a b : β} (ha : r.start s = (.ok a, s')) (hb : r.start t = (.ok b, t')) : a = b := by
  have hst := (h t).2 s fun _ hn => hn.elim
  rw [ha, hb] at hst
  exact Except.ok.inj hst

lemma Writes.parallel {β : Type} {r : Reader β} (hr : Writes ∅ ds r)
    {f g : β → Reader Draft} (h : ∀ a, Parallel (f a) (g a)) : Parallel (r >>= f) (r >>= g) := by
  intro s t d e s' t' hd he
  obtain ⟨a, s₁, ha, hd⟩ := Reader.start_bind_eq_ok.1 hd
  obtain ⟨b, t₁, hb, he⟩ := Reader.start_bind_eq_ok.1 he
  obtain rfl := hr.unique ha hb
  exact h a s₁ t₁ d e s' t' hd he

end Parallel

lemma readContent_alike (h : Alike d e) (line : List Char) : Parallel (readContent d line) (readContent e line) := by
  obtain ⟨species, rfl, hn⟩ := h
  unfold readContent
  rcases hd : d.current with _ | _ | _ | _
  · exact parallel_pure ⟨species, by rw [hd], hn⟩
  · exact (readElements_writes _ _ _).parallel fun _ => parallel_pure ⟨species, rfl, hn⟩
  · refine parallel_pure ⟨_, rfl, ?_⟩
    unfold namesOf at hn ⊢
    rw [addSpecies_names, addSpecies_names, hn]
  · dsimp only
    split
    · exact (quiet_lift _).parallel fun _ => parallel_pure ⟨species, rfl, hn⟩
    · refine (readAuxiliary_quiet _ _ _ _).parallel ?_
      rintro ⟨last, rs⟩
      exact parallel_pure ⟨species, rfl, hn⟩

lemma openSection_alike (h : Alike d e) (sec : Section) (line : List Char) :
    Parallel (openSection d sec line) (openSection e sec line) := by
  obtain ⟨species, rfl, hn⟩ := h
  unfold openSection
  split
  · exact readContent_alike (d := { d with current := some sec }) ⟨species, rfl, hn⟩ _
  · exact parallel_pure ⟨species, rfl, hn⟩

lemma readLine_alike (file : List (List Char)) (h : Alike d e) (raw : List Char) :
    Parallel (readLine file d raw) (readLine file e raw) := by
  rw [readLine_eq, readLine_eq]
  cases openingOf raw with
  | ignored => exact parallel_pure h
  | elements => exact openSection_alike h _ _
  | species => exact openSection_alike h _ _
  | reactions =>
    obtain ⟨species, rfl, hn⟩ := h
    exact (sectionUnit_quiet _).parallel fun _ => parallel_pure ⟨species, rfl, hn⟩
  | thermo =>
    obtain ⟨species, rfl, hn⟩ := h
    intro s t d' e' s' t' hd he
    obtain ⟨s₁, s₂, hs, hd⟩ := Reader.start_bind_eq_ok.1 hd
    obtain ⟨found, s₃, hf, ⟨⟩⟩ := Reader.start_bind_eq_ok.1 hd
    obtain ⟨t₁, t₂, ht, he⟩ := Reader.start_bind_eq_ok.1 he
    obtain ⟨found', t₃, hf', ⟨⟩⟩ := Reader.start_bind_eq_ok.1 he
    have hn₁ := gives_lift (readThermo_names _ _ _) _ _ _ hf
    have hn₂ := gives_lift (readThermo_names _ _ _) _ _ _ hf'
    exact ⟨found', rfl, hn₂.trans (hn.trans hn₁.symm)⟩
  | ending =>
    obtain ⟨species, rfl, hn⟩ := h
    exact parallel_pure ⟨species, rfl, hn⟩
  | content => exact readContent_alike h _

lemma readLines_alike (file lines : List (List Char)) (h : Alike d e) :
    Parallel (lines.foldlM (readLine file) d) (lines.foldlM (readLine file) e) := by
  induction lines generalizing d e with
  | nil => exact parallel_pure h
  | cons raw rest ih =>
    intro s t d' e' s' t' hd he
    obtain ⟨d₁, s₁, hd₁, hd⟩ := Reader.start_bind_eq_ok.1 hd
    obtain ⟨e₁, t₁, he₁, he⟩ := Reader.start_bind_eq_ok.1 he
    exact ih (readLine_alike file h raw s t d₁ e₁ s₁ t₁ hd₁ he₁) s₁ t₁ d' e' s' t' hd he

/-- Two readings of a file in any two sessions differ at most in the data of species. -/
lemma readMechanismLines_alike {m n : Mechanism} (hm : (readMechanismLines file thermo).start s = (.ok m, s'))
    (hn : (readMechanismLines file thermo).start t = (.ok n, t')) :
    n.elements = m.elements ∧ n.reactions = m.reactions ∧ namesOf n.species = namesOf m.species := by
  obtain ⟨d, s₁, rs, s₂, s₃, species, hd, hrs, -, hs, rfl⟩ := readMechanismLines_eq_ok hm
  obtain ⟨e, t₁, rs', t₂, t₃, species', he, hr', -, hs', rfl⟩ := readMechanismLines_eq_ok hn
  obtain ⟨_, rfl, hns⟩ := readLines_alike file file ⟨[], rfl, rfl⟩ s t d e s₁ t₁ hd he
  have hsh := mapM_quiet fun p : Reaction String Scalar × ℕ => shapeCoefficients_quiet p.2 p.1
  obtain rfl := (hsh _).unique hrs hr'
  have hn₁ := (completeSpecies_complete _ _ s₃ species s' hs).1
  have hn₂ := (completeSpecies_complete _ _ t₃ species' t' hs').1
  exact ⟨rfl, rfl, hn₂.trans (hns.trans hn₁.symm)⟩

/-! ## Two readings one after the other -/

/-- What a reading does to the next one in its session. It leaves the weights that its file declares,
all of them if it succeeds and some of the first ones if it fails. The next reading gives what it
would have given before if its databases ask for no element with another weight than before, unless
its own file has declared the element by then. Elements, reactions and the names of species never
depend on what was read before, but weights of species do, and so does whether a database can be
read. -/
theorem remembered_weights (text₁ text₂ : String) (thermo₁ thermo₂ : Option (Except Fault String)) (s : Session) :
    (∃ done, done <+: declaredBy none (Text.lines text₁) ∧ (∀ m, ((readMechanism text₁ thermo₁).start s).1 = .ok m →
        done = declaredBy none (Text.lines text₁)) ∧
      ((readMechanism text₁ thermo₁).start s).2.weights = insertAll s.weights done) ∧
    (Settled {name | ((readMechanism text₁ thermo₁).start s).2.weights.get? name =
        s.weights.get? name} (Text.lines text₂) (thermo₂.map (·.map Text.lines)) →
      ((readMechanism text₂ thermo₂).start ((readMechanism text₁ thermo₁).start s).2).1 =
        ((readMechanism text₂ thermo₂).start s).1) ∧
    (∀ m n, ((readMechanism text₂ thermo₂).start s).1 = .ok m →
      ((readMechanism text₂ thermo₂).start ((readMechanism text₁ thermo₁).start s).2).1 = .ok n →
      n.elements = m.elements ∧ n.reactions = m.reactions ∧ namesOf n.species = namesOf m.species) := by
  refine ⟨?_, fun hsettled => ?_, fun m n hm hn => ?_⟩
  -- tables that agree on all elements settle every database
  · have hall : Settled Set.univ (Text.lines text₁) (thermo₁.map (·.map Text.lines)) := by
      constructor <;> simp
    exact (readMechanismLines_writes hall s).1
  · exact ((readMechanismLines_writes hsettled _).2 s fun _ hname => hname).symm
  · exact readMechanismLines_alike (Prod.ext hm rfl) (Prod.ext hn rfl)

/-- A file that gives hydrogen another weight and then fails. -/
def heavyFile : List (List Char) := ["ELEMENTS\n".toList, "H /2.0/ X /?/\n".toList]

def hydrogenFile : List (List Char) := ["ELEMENTS H\n".toList, "END\n".toList, "SPECIES A\n".toList, "END\n".toList,
    "THERMO\n".toList, "300. 1000. 5000.\n".toList] ++ hydrogenEntry 'A' ++ ["END\n".toList]

theorem heavyHydrogen_remembered :
    ∃ e m n, ((readMechanism (String.ofList heavyFile.flatten) none).start {}).1 = .error e ∧
      ((readMechanism (String.ofList hydrogenFile.flatten) none).start {}).1 = .ok m ∧
      ((readMechanism (String.ofList hydrogenFile.flatten) none).start
        ((readMechanism (String.ofList heavyFile.flatten) none).start {}).2).1 = .ok n ∧
      m.species.map (·.weight.toFloat.toBits) = [(1.00794 : Float).toBits] ∧
      n.species.map (·.weight.toFloat.toBits) = [(2.0 : Float).toBits] ∧
      n.elements = m.elements ∧ n.reactions = m.reactions := by
  have hfail : ((readMechanism (String.ofList heavyFile.flatten) none).start {}).1.toOption.isNone = true := by
    rw [readMechanism_flatten (by decide +kernel)]
    decide +kernel
  have halone : ((readMechanismLines hydrogenFile none).start {}).1.toOption.map
      (·.species.map (·.weight.toFloat.toBits)) = some [(1.00794 : Float).toBits] := by
    decide +kernel
  have hafter : ((readMechanismLines hydrogenFile none).start
      ((readMechanism (String.ofList heavyFile.flatten) none).start {}).2).1.toOption.map
      (·.species.map (·.weight.toFloat.toBits)) = some [(2.0 : Float).toBits] := by
    rw [readMechanism_flatten (by decide +kernel)]
    decide +kernel
  obtain ⟨m, _, hm, hweight⟩ := exists_reading (by decide +kernel) halone
  obtain ⟨n, _, hn, hweight'⟩ := exists_reading (by decide +kernel) hafter
  have hm := congrArg Prod.fst hm
  have hn := congrArg Prod.fst hn
  obtain ⟨helements, hreactions, -⟩ := (remembered_weights _ _ none none {}).2.2 m n hm hn
  cases hfirst : ((readMechanism (String.ofList heavyFile.flatten) none).start {}).1 with
  | ok first =>
    rw [hfirst] at hfail
    cases hfail
  | error e => exact ⟨e, m, n, rfl, hm, hn, hweight, hweight', helements, hreactions⟩

end Kinetics.Reading
