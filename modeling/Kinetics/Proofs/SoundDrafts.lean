import Kinetics.Proofs.Readers
import Kinetics.Reading.MechanismFile
/-!
# Drafts of mechanisms stay sound

While a mechanism is read, its draft keeps an invariant: no element or species stands in it twice,
and every reaction is sound. An auxiliary line changes the last reaction only. It never makes a
reaction a falloff reaction, and the lines that give a table of rates take that property away, with
one exception: a line that continues a table leaves the flag as it is, so the draft also remembers
that the line before has cleared it.
-/

open List

namespace Kinetics.Reading

/-- One coefficient for each name, and no name twice. -/
structure Paired (names : List String) (nu : List Scalar) : Prop where
  length : names.length = nu.length
  nodup : names.Nodup

/-- What holds of a reaction while auxiliary lines complete it. -/
structure SoundReaction (r : Reaction String Scalar) : Prop where
  reactants : Paired r.reactants r.reactantNu
  products : Paired r.products r.productNu
  thirdBody : r.thirdBody = true → r.falloff = false
  tabulated : r.chebyshev = true ∨ r.plog = true → r.falloff = false
  /-- Parameters of the reverse direction come in threes. -/
  reverse : r.reverse = [] ∨ 3 ≤ r.reverse.length

lemma nodup_concat_of_not_mem {names : List String} {name : String} (h : names.Nodup) (hn : name ∉ names) :
    (names ++ [name]).Nodup := concat_eq_append ▸ h.concat hn

/-! ## Equations -/

lemma Side.add_paired {side : Side} (h : Paired side.names side.nu) (nu : Scalar)
    (name : List Char) : Paired (side.add nu name).names (side.add nu name).nu := by
  unfold Side.add
  split
  · exact h
  · dsimp only
    split
    · exact ⟨by simpa using h.length, h.nodup⟩
    · rename_i hn
      exact ⟨by simp [h.length], nodup_concat_of_not_mem h.nodup (List.idxOf?_eq_none_iff.1 hn)⟩

lemma readTerms_paired (text : List Char) :
    Yields (fun side : Side => Paired side.names side.nu) (readTerms text) := by
  refine yields_foldlM (fun side h piece => ?_) ⟨rfl, nodup_nil⟩ _
  exact yields_bind fun _ => yields_pure.2 (Side.add_paired h _ _)

lemma readEquation_paired (text : List Char) : Yields (fun e : Equation => Paired e.reactants.names e.reactants.nu ∧
      Paired e.products.names e.products.nu) (readEquation text) := by
  refine yields_bind fun _ => yields_bind fun _ => ?_
  refine (readTerms_paired _).bind fun _ hl => yields_bind fun _ => ?_
  exact (readTerms_paired _).bind fun _ hr => yields_pure.2 ⟨hl, hr⟩

lemma readReactionLine_sound (unit : EnergyUnit) (line : List Char) :
    Yields SoundReaction (readReactionLine unit line) := by
  refine yields_bind fun _ => yields_bind fun _ => yields_bind fun _ => yields_bind fun _ => ?_
  refine yields_bind fun _ => yields_bind fun _ => ?_
  refine (readEquation_paired _).bind fun e he => yields_bind fun _ => yields_pure.2 ?_
  refine ⟨he.1, he.2, fun h => ?_, fun h => ?_, .inl rfl⟩
  · have := (Bool.and_eq_true _ _ ▸ h : _ ∧ (!e.falloff) = true).2
    simpa using this
  · simp [Reaction.elementary] at h

/-! ## Auxiliary lines -/

/-- All reactions are sound, and the last one is no falloff reaction if a table was begun. -/
structure SoundList (begun : Bool) (rs : List (Reaction String Scalar)) : Prop where
  sound : ∀ r ∈ rs, SoundReaction r
  begun : begun = true → ∀ r ∈ rs.getLast?, r.falloff = false

section Change
variable {begun begun' : Bool} {rs : List (Reaction String Scalar)}
  {f : Reaction String Scalar → Reaction String Scalar}

/-- A change of the last reaction keeps a list sound if it keeps that reaction sound. -/
lemma changeLast_sound (h : SoundList begun rs) (hf : ∀ r, SoundReaction r → (begun = true → r.falloff = false) →
      SoundReaction (f r) ∧ (begun' = true → (f r).falloff = false)) :
    Yields (SoundList begun') (changeLast f rs) := by
  refine Yields.bind (fun r hr => lastEntry_eq_ok.1 hr) ?_
  intro r hr
  have hc := hf r (h.sound r (mem_of_getLast? hr)) fun hb => h.begun hb r hr
  refine yields_pure.2 ⟨fun x hx => ?_, fun hb x hx => ?_⟩
  · rcases mem_append.1 hx with hx | hx
    · exact h.sound x (mem_of_mem_dropLast hx)
    · rw [mem_singleton.1 hx]
      exact hc.1
  · rw [List.getLast?_concat, Option.mem_some_iff] at hx
    exact hx ▸ hc.2 hb

/-- A change that keeps a reaction sound and does not make it a falloff reaction. -/
structure Harmless (f : Reaction String Scalar → Reaction String Scalar) : Prop where
  sound : ∀ r, SoundReaction r → SoundReaction (f r)
  falloff : ∀ r, r.falloff = false → (f r).falloff = false

lemma Harmless.changeLast (hf : Harmless f) (h : SoundList begun rs) : Yields (SoundList begun) (changeLast f rs) :=
  changeLast_sound h fun r hr hb => ⟨hf.sound r hr, fun h => hf.falloff r (hb h)⟩

def core (r : Reaction String Scalar) :
    (List String × List Scalar) × (List String × List Scalar) × (Bool × Bool × Bool × Bool) × List Scalar :=
  ((r.reactants, r.reactantNu), (r.products, r.productNu), (r.thirdBody, r.falloff, r.chebyshev, r.plog), r.reverse)

lemma SoundReaction.of_core {r r' : Reaction String Scalar} (hr : SoundReaction r)
    (h : core r' = core r) : SoundReaction r' := by
  simp only [core, Prod.mk.injEq] at h
  obtain ⟨⟨h1, h2⟩, ⟨h3, h4⟩, ⟨h5, h6, h7, h8⟩, h9⟩ := h
  constructor
  · exact h1 ▸ h2 ▸ hr.reactants
  · exact h3 ▸ h4 ▸ hr.products
  · exact h5 ▸ h6 ▸ hr.thirdBody
  · exact h6 ▸ h7 ▸ h8 ▸ hr.tabulated
  · exact h9 ▸ hr.reverse

lemma changeLast_core (h : SoundList begun rs) (hf : ∀ r, core (f r) = core r) :
    Yields (SoundList begun) (changeLast f rs) := by
  refine Harmless.changeLast ⟨fun r hr => hr.of_core (hf r), fun r hr => ?_⟩ h
  have hs : (f r).falloff = r.falloff := congrArg (·.2.2.1.2.1) (hf r)
  exact hs.trans hr

end Change

section Lines
variable {begun : Bool} {rs : List (Reaction String Scalar)}

lemma readReverse_sound (h : SoundList begun rs) (unit : EnergyUnit) (last : LastLine)
    (line : List Char) : Yields (SoundList begun) (readReverse unit last line rs) := by
  refine yields_bind ?_
  rintro ⟨A, b, E⟩
  refine yields_bind fun _ => yields_bind fun A' => Harmless.changeLast ⟨?_, ?_⟩ h
  · intro r hr
    split
    · exact ⟨hr.reactants, hr.products, hr.thirdBody, hr.tabulated, hr.reverse⟩
    · refine ⟨hr.reactants, hr.products, hr.thirdBody, hr.tabulated, .inr ?_⟩
      simp
  · intro r hr
    split <;> exact hr

lemma readLimit_sound (h : SoundList begun rs) {add : List Scalar → Reaction String Scalar → Reaction String Scalar}
    (ha : ∀ xs r, core (add xs r) = core r) (order : Scalar → Scalar) (unit : EnergyUnit) (line : List Char) :
    Yields (SoundList begun) (readLimit order add unit line rs) := by
  refine yields_bind ?_
  rintro ⟨A, b, E⟩
  exact yields_bind fun _ => yields_bind fun _ => changeLast_core h (ha _)

lemma readTroe_sound (h : SoundList begun rs) (line : List Char) : Gives (SoundList begun) (readTroe line rs) := by
  have hc : ∀ parameters : Reaction String Scalar → List Scalar, Yields (SoundList begun)
      (changeLast (fun r => { r with troe := true, troeParameters := parameters r }) rs) :=
    fun _ => changeLast_core h fun _ => rfl
  refine gives_bind fun _ => gives_bind ?_
  rintro ⟨a, t3, t1⟩
  dsimp only
  split
  · refine gives_bind fun _ => ?_
    split
    · exact gives_bind fun _ => gives_bind fun _ => gives_lift (hc _)
    · exact gives_bind fun _ => gives_lift (hc _)
  · split
    · exact gives_bind fun _ => gives_bind fun _ => gives_lift (hc _)
    · exact gives_bind fun _ => gives_lift (hc _)

lemma readSri_sound (h : SoundList begun rs) (line : List Char) : Yields (SoundList begun) (readSri line rs) := by
  have hc : ∀ parameters : Reaction String Scalar → List Scalar, Yields (SoundList begun)
      (changeLast (fun r => { r with sri := true, sriParameters := parameters r }) rs) :=
    fun _ => changeLast_core h fun _ => rfl
  refine yields_bind fun _ => yields_bind ?_
  rintro ⟨a, b, c⟩
  dsimp only
  split
  · exact yields_bind fun _ => yields_bind fun _ => yields_bind fun _ => hc _
  · exact yields_bind fun _ => hc _

variable {last : LastLine}

/-- The first line of a table clears the falloff flag, and later lines find it cleared. -/
lemma readChebyshev_sound (h : SoundList last.chebyshev rs) (line : List Char) :
    Yields (SoundList true) (readChebyshev last line rs) := by
  refine yields_bind fun _ => ?_
  split
  case isTrue hl =>
    refine yields_bind fun xs => changeLast_sound h fun r hr hb => ?_
    have hc : r.falloff = false := hb hl
    exact ⟨⟨hr.reactants, hr.products, hr.thirdBody, fun _ => hc, hr.reverse⟩, fun _ => hc⟩
  case isFalse =>
    refine yields_bind fun _ => yields_bind fun n => yields_bind fun _ => yields_bind fun m => ?_
    refine yields_bind fun xs => changeLast_sound h fun r hr _ => ?_
    exact ⟨⟨hr.reactants, hr.products, fun _ => rfl, fun _ => rfl, hr.reverse⟩, fun _ => rfl⟩

lemma readBounds_sound (h : SoundList begun rs) {own other : Bounds} (ho : ∀ xs r, core (own.put xs r) = core r)
    (hr : ∀ xs r, core (other.put xs r) = core r) (line : List Char) :
    Yields (SoundList begun) (readBounds own other line rs) := by
  refine yields_bind fun _ => Yields.bind (changeLast_core h (ho _)) fun rs' h' => ?_
  refine yields_bind fun c => ?_
  split
  · exact yields_bind fun _ => changeLast_core h' (hr _)
  · exact yields_pure.2 h'

lemma readSupport_sound (h : SoundList begun rs) (unit : EnergyUnit) (line : List Char) :
    Yields (SoundList begun) (readSupport unit line rs) := by
  refine yields_bind fun _ => yields_bind fun xs => ?_
  split
  · refine yields_bind fun A => Harmless.changeLast ⟨?_, ?_⟩ h
    · intro r hr
      split
      case isTrue hp =>
        exact ⟨hr.reactants, hr.products, hr.thirdBody, fun _ => hr.tabulated (.inr hp), hr.reverse⟩
      case isFalse =>
        exact ⟨hr.reactants, hr.products, fun _ => rfl, fun _ => rfl, hr.reverse⟩
    · intro r hr
      split
      · exact hr
      · rfl
  · exact yields_error _

lemma readEfficiencies_sound (h : SoundList begun rs) (words : List (List Char)) :
    Yields (SoundList begun) (readEfficiencies rs words) := by
  fun_induction readEfficiencies rs words with
  | case1 => exact yields_ok.2 h
  | case2 => exact yields_error _
  | case3 rs name value rest ih =>
    refine yields_bind fun x => Yields.bind (changeLast_core h fun _ => rfl) ?_
    exact fun rs' h' => ih rs' h'

/-- An auxiliary line keeps the reactions sound, and keeps track of a table that was begun. -/
lemma readAuxiliary_sound (h : SoundList last.chebyshev rs) (unit : EnergyUnit) (line : List Char) :
    Gives (fun after => SoundList after.1.chebyshev after.2) (readAuxiliary unit last line rs) := by
  have hl : ∀ {x : Except Fault (List (Reaction String Scalar))}, Yields (SoundList last.chebyshev) x →
      Gives (fun after : LastLine × _ => SoundList after.1.chebyshev after.2)
        (do return (last, ← x) : Reader (LastLine × List (Reaction String Scalar))) := by
    intro x hx
    exact (gives_lift hx).bind fun rs' h' => gives_pure h'
  unfold readAuxiliary
  split
  · exact hl (changeLast_core h fun _ => rfl)
  · exact hl (readReverse_sound h unit last line)
  · exact hl (readLimit_sound h (fun _ _ => by rfl) _ unit line)
  · exact hl (readLimit_sound h (fun _ _ => by rfl) _ unit line)
  · exact (readTroe_sound h line).bind fun rs' h' => gives_pure h'
  · exact hl (readSri_sound h line)
  · exact (gives_lift (readChebyshev_sound h line)).bind fun rs' h' => gives_pure h'
  · exact hl (readBounds_sound h (fun _ _ => by rfl) (fun _ _ => by rfl) line)
  · exact hl (readBounds_sound h (fun _ _ => by rfl) (fun _ _ => by rfl) line)
  · exact hl (readSupport_sound h unit line)
  · exact hl (readEfficiencies_sound h _)

end Lines

/-! ## Elements, species and thermodynamic data -/

lemma readElements_nodup {elements : List String} (h : elements.Nodup) (previous : List Char)
    (words : List (List Char)) : Gives List.Nodup (readElements elements previous words) := by
  induction words generalizing elements previous with
  | nil => exact gives_pure h
  | cons word rest ih =>
    unfold readElements
    split
    · split
      · exact ih h previous
      · refine ih ?_ word
        split
        · exact h
        · rename_i hn
          exact nodup_concat_of_not_mem h fun ha => hn (contains_iff_mem.2 ha)
    · exact gives_bind fun _ => gives_bind fun _ => ih h previous

def namesOf (species : List (Species Scalar)) : List String := species.map (·.name)

variable {species : List (Species Scalar)}

lemma addSpecies_nodup (h : (namesOf species).Nodup)
    (words : List (List Char)) : (namesOf (addSpecies species words)).Nodup := by
  unfold addSpecies
  induction words generalizing species with
  | nil => exact h
  | cons word rest ih =>
    refine ih ?_
    dsimp only
    split
    · exact h
    · rename_i hnw
      rw [namesOf, map_append]
      refine nodup_concat_of_not_mem h fun ha => hnw (Bool.or_eq_true_iff.2 (.inr ?_))
      obtain ⟨sp, hsp, hn⟩ := mem_map.1 ha
      exact any_eq_true.2 ⟨sp, hsp, beq_iff_eq.2 hn⟩

lemma addElement_name (weights : Weights Scalar) (sp : Species Scalar) (field : List Char) :
    Yields (fun sp' => sp'.name = sp.name) (addElement weights sp field) := by
  unfold addElement
  dsimp only
  split
  · exact yields_pure.2 rfl
  · refine yields_bind fun _ => yields_bind fun _ => ?_
    split
    · exact yields_pure.2 rfl
    · exact yields_error _

lemma readEntry_name (weights : Weights Scalar) (common : Option (List Float)) (sp : Species Scalar)
    (first second third fourth : List Char) : Yields (fun sp' => sp'.name = sp.name)
      (readEntry weights common sp first second third fourth) := by
  refine Yields.bind (Q := fun sp' : Species Scalar => sp'.name = sp.name) ?_ fun sp' h => ?_
  · refine yields_foldlM (P := fun sp' : Species Scalar => sp'.name = sp.name) ?_ rfl _
    intro sp₁ h₁ field sp₂ h₂
    exact (addElement_name weights sp₁ field sp₂ h₂).trans h₁
  · exact yields_bind fun _ => yields_bind fun _ => yields_pure.2 h

lemma namesOf_set {i : ℕ} {sp sp' : Species Scalar}
    (h : species[i]? = some sp) (hn : sp'.name = sp.name) : namesOf (species.set i sp') = namesOf species := by
  unfold namesOf
  obtain ⟨hi, rfl⟩ := List.getElem?_eq_some_iff.1 h
  have hat : species[i].name = (species.map (·.name)).get ⟨i, by simpa using hi⟩ := by simp
  rw [map_set, hn, hat]
  exact set_getElem_self _

lemma readEntries_names (weights : Weights Scalar) (common : Option (List Float))
    (lines : List (List Char)) (species : List (Species Scalar)) :
    Yields (fun species' => namesOf species' = namesOf species) (readEntries weights common lines species) := by
  fun_induction readEntries weights common lines species with
  | case1 => exact yields_error _
  | case2 => exact yields_ok.2 rfl
  | case3 line rest species _ _ ih => exact ih
  | case4 line rest species _ _ _ _ ih => exact ih
  | case5 line rest species _ _ _ i _ ihSet ih =>
    refine Yields.bind (fun _ h => entryAt_eq_ok.1 h) ?_
    intro sp hsp
    split
    · refine (readEntry_name weights common sp _ _ _ _).bind fun sp' hn => ?_
      have hs := namesOf_set hsp hn
      dsimp only
      split
      · exact fun _ h => (ihSet sp' _ h).trans hs
      · exact yields_pure.2 hs
    · exact ih

lemma readThermo_names (weights : Weights Scalar) (lines : List (List Char)) (species : List (Species Scalar)) :
    Yields (fun species' => namesOf species' = namesOf species) (readThermo weights lines species) := by
  unfold readThermo
  split
  · exact yields_error _
  · refine yields_bind ?_
    rintro ⟨common, entries⟩
    exact readEntries_names weights common entries species

/-! ## Lines of a file -/

/-- What a line begins with. -/
inductive Opening where
  /-- Nothing, or the mark of a comment. -/
  | ignored
  | elements
  | species
  | reactions
  | thermo
  | ending
  /-- No keyword: the line belongs to the section in which it stands. -/
  | content
  deriving DecidableEq

/-- A line without blanks at its ends and without a comment. -/
def trimmed (raw : List Char) : List Char := cutComment (Text.strip raw)

/-- What a line begins with. Keywords are tried in this order. -/
def openingOf (raw : List Char) : Opening := if isIgnored raw then .ignored
  else if opensWith "elem" (trimmed raw) then .elements
  else if opensWith "spec" (trimmed raw) then .species
  else if opensWith "reac" (trimmed raw) then .reactions
  else if opensWith "ther" (trimmed raw) then .thermo
  else if opensWith "end" (trimmed raw) then .ending
  else .content

def sectionKeywords : List String := ["elem", "spec", "reac", "ther", "end"]

lemma openingOf_content {raw : List Char} (hr : isIgnored raw = false)
    (h : ∀ keyword ∈ sectionKeywords, opensWith keyword (trimmed raw) = false) : openingOf raw = .content := by
  unfold openingOf
  rw [hr, h "elem" (by simp [sectionKeywords]), h "spec" (by simp [sectionKeywords]),
    h "reac" (by simp [sectionKeywords]), h "ther" (by simp [sectionKeywords]), h "end" (by simp [sectionKeywords])]
  rfl

def readOpened (file : List (List Char)) (d : Draft) (line : List Char) : Opening → Reader Draft
  | .ignored => return d
  | .elements => openSection d .elements line
  | .species => openSection d .species line
  | .reactions =>
    return { d with
      current := some .reactions, unit := ← sectionUnit ((Text.fields line).drop 1) }
  | .thermo => return { d with species := ← readThermo (← get).weights file d.species }
  | .ending => return { d with current := none }
  | .content => readContent d line

lemma readLine_eq (file : List (List Char)) (d : Draft) (raw : List Char) :
    readLine file d raw = readOpened file d (trimmed raw) (openingOf raw) := by
  unfold readLine openingOf trimmed
  dsimp only
  split
  · rfl
  split
  · rfl
  split
  · rfl
  split
  · rfl
  split
  · rfl
  split
  · rfl
  · rfl

/-- What holds of a draft after every line. -/
structure SoundDraft (d : Draft) : Prop where
  elements : d.elements.Nodup
  species : (namesOf d.species).Nodup
  reactions : SoundList d.last.chebyshev d.reactions

lemma soundDraft_start : SoundDraft {} := ⟨nodup_nil, nodup_nil, ⟨by simp, by simp⟩⟩

variable {d : Draft}

lemma readContent_sound (h : SoundDraft d) (line : List Char) : Gives SoundDraft (readContent d line) := by
  unfold readContent
  split
  · exact gives_pure h
  · refine (readElements_nodup h.elements [] _).bind fun elements hn => ?_
    exact gives_pure ⟨hn, h.species, h.reactions⟩
  · exact gives_pure ⟨h.elements, addSpecies_nodup h.species _, h.reactions⟩
  · split
    · refine (gives_lift (readReactionLine_sound d.unit line)).bind fun r hr => gives_pure ?_
      refine ⟨h.elements, h.species, ⟨fun x hx => ?_, by simp⟩⟩
      rcases mem_append.1 hx with hx | hx
      · exact h.reactions.sound x hx
      · exact mem_singleton.1 hx ▸ hr
    · refine (readAuxiliary_sound h.reactions d.unit line).bind ?_
      rintro ⟨last, rs⟩ hrs
      exact gives_pure ⟨h.elements, h.species, hrs⟩

lemma openSection_sound (h : SoundDraft d) (s : Section) (line : List Char) :
    Gives SoundDraft (openSection d s line) := by
  have h' : SoundDraft { d with current := some s } := ⟨h.elements, h.species, h.reactions⟩
  unfold openSection
  split
  · exact readContent_sound h' _
  · exact gives_pure h'

lemma readLine_sound (h : SoundDraft d) (file : List (List Char)) (raw : List Char) :
    Gives SoundDraft (readLine file d raw) := by
  rw [readLine_eq]
  cases openingOf raw with
  | ignored => exact gives_pure h
  | elements => exact openSection_sound h _ _
  | species => exact openSection_sound h _ _
  | reactions => exact gives_bind fun _ => gives_pure ⟨h.elements, h.species, h.reactions⟩
  | thermo =>
    refine gives_bind fun s => (gives_lift (readThermo_names s.weights file d.species)).bind ?_
    intro species hn
    exact gives_pure ⟨h.elements, hn ▸ h.species, h.reactions⟩
  | ending => exact gives_pure ⟨h.elements, h.species, h.reactions⟩
  | content => exact readContent_sound h _

lemma readFile_sound (file lines : List (List Char)) : Gives SoundDraft (lines.foldlM (readLine file) {}) :=
  gives_foldlM lines (fun raw _ _ h => readLine_sound h file raw) soundDraft_start

/-! ## Checks after the last line -/

lemma shapeCoefficients_core (i : ℕ) (r : Reaction String Scalar) :
    Gives (fun r' => core r' = core r) (shapeCoefficients i r) := by
  unfold shapeCoefficients
  dsimp only
  split
  · split
    · exact gives_quit _ _
    · refine gives_bind fun _ => gives_bind fun _ => gives_bind fun _ => ?_
      split
      · exact gives_bind fun _ => gives_pure rfl
      · exact gives_pure rfl
  · exact gives_pure rfl

/-- The reactions of a file as its lines give them, in their order, before any is split. -/
def listedReactions (file : List (List Char)) : Reader (List (Reaction String Scalar)) := do
  let d ← file.foldlM (readLine file) {}
  d.reactions.zipIdx.mapM fun p => shapeCoefficients p.2 p.1

lemma listedReactions_sound (file : List (List Char)) :
    Gives (fun rs => ∀ r ∈ rs, SoundReaction r) (listedReactions file) := by
  refine (readFile_sound file file).bind fun d hd => ?_
  refine gives_mapM fun p hp => (shapeCoefficients_core p.2 p.1).imp fun r' hc => ?_
  exact (hd.reactions.sound p.1 (fst_mem_of_mem_zipIdx hp)).of_core hc

lemma readMechanismLines_eq_ok {file : List (List Char)}
    {thermo : Option (Except Fault (List (List Char)))} {s s' : Session} {m : Mechanism}
    (h : (readMechanismLines file thermo).start s = (.ok m, s')) : ∃ d s₁ rs s₂ s₃ species,
      (file.foldlM (readLine file) {}).start s = (.ok d, s₁) ∧
      (d.reactions.zipIdx.mapM fun p => shapeCoefficients p.2 p.1).start s₁ = (.ok rs, s₂) ∧
      (rs.zipIdx.forM fun p => checkNames (namesOf d.species) p.2 p.1).start s₂ = (.ok (), s₃) ∧
      (completeSpecies thermo d.species).start s₃ = (.ok species, s') ∧
      m = { elements := d.elements, species, reactions := splitAllReverse rs } := by
  obtain ⟨d, s₁, hd, h⟩ := Reader.start_bind_eq_ok.1 h
  obtain ⟨rs, s₂, hrs, h⟩ := Reader.start_bind_eq_ok.1 h
  obtain ⟨_, s₃, hn, h⟩ := Reader.start_bind_eq_ok.1 h
  obtain ⟨species, s₄, hs, h⟩ := Reader.start_bind_eq_ok.1 h
  cases h
  exact ⟨d, s₁, rs, s₂, s₃, species, hd, hrs, hn, hs, rfl⟩

end Kinetics.Reading
