import Kinetics.Proofs.ReverseDirections
/-!
# Mechanisms that are read are well formed

Whatever file is read, a mechanism that comes out lists no element and no species twice, every
species has a weight, and every reaction pairs its names with coefficients, refers to listed species
only, has at most one kind of pressure dependence, and, if its rate is a Chebyshev polynomial, a
matrix of coefficients of the announced size. The drafts keep most of this line by line
(`SoundDraft`); the checks after the last line add the rest, and splitting off reverse directions
keeps it.
-/

open List

namespace Kinetics.Reading

/-- The Chebyshev coefficients form a matrix with the announced numbers of rows and columns, at least
one of each. -/
def Rectangular (r : Reaction String Scalar) : Prop := 1 ≤ r.temperatureTerms ∧ 1 ≤ r.pressureTerms ∧
    ∃ rows, r.chebyshevCoefficients = some rows ∧ (rows.length : ℤ) = r.temperatureTerms ∧
      ∀ row ∈ rows, (row.length : ℤ) = r.pressureTerms

/-- What holds of every reaction of a mechanism with the species `names`. -/
structure WellFormedReaction (names : List String) (r : Reaction String Scalar) : Prop where
  reactants : Paired r.reactants r.reactantNu
  products : Paired r.products r.productNu
  known : ∀ name ∈ r.reactants ++ r.products, name ∈ names
  thirdBody : ¬ (r.thirdBody = true ∧ r.falloff = true)
  tabulated : r.chebyshev = true ∨ r.plog = true → r.falloff = false
  chebyshev : r.chebyshev = true → Rectangular r

/-- What holds of every mechanism that is read. -/
structure WellFormed (m : Mechanism) : Prop where
  elements : m.elements.Nodup
  species : (namesOf m.species).Nodup
  weights : ∀ sp ∈ m.species, Arithmetic.isZero sp.weight = false
  reactions : ∀ r ∈ m.reactions, WellFormedReaction (namesOf m.species) r

/-! ## Matrices of coefficients -/

lemma rowsOf_shape {β : Type} {n k : ℕ} (hk : 0 < k) (xs : List β) (h : xs.length = n * k) :
    (rowsOf k xs).length = n ∧ ∀ row ∈ rowsOf k xs, row.length = k := by
  induction n generalizing xs with
  | zero =>
    have hxs : xs = [] := eq_nil_of_length_eq_zero (by simpa using h)
    rw [rowsOf, dif_pos (.inr hxs)]
    simp
  | succ n ih =>
    have hl : k ≤ xs.length := by
      rw [h, Nat.succ_mul]
      omega
    have hne : ¬ (k = 0 ∨ xs = []) := by
      rintro (hz | rfl)
      · omega
      · simp at hl
        omega
    obtain ⟨hr, hrw⟩ := ih (xs.drop k) (by rw [length_drop, h, Nat.succ_mul]; omega)
    rw [rowsOf, dif_neg hne, length_cons, hr, forall_mem_cons]
    exact ⟨rfl, length_take_of_le hl, hrw⟩

variable {n k : ℤ}

lemma rowsOf_matrix {β : Type} (hn : 1 ≤ n) (hk : 1 ≤ k) (xs : List β) (h : (xs.length : ℤ) = n * k) :
    ((rowsOf k.toNat xs).length : ℤ) = n ∧ ∀ row ∈ rowsOf k.toNat xs, (row.length : ℤ) = k := by
  lift n to ℕ using by omega
  lift k to ℕ using by omega
  obtain ⟨hr, hrw⟩ := rowsOf_shape (k := k) (by omega) xs (by exact_mod_cast h)
  rw [Int.toNat_natCast, hr]
  exact ⟨rfl, fun row hm => by rw [hrw row hm]⟩

/-- A product of dimensions that is positive, with a nonnegative factor, has positive factors. -/
lemma dimensions_pos {length : ℕ} (hl : (length : ℤ) = n * k) (hps : 0 < length) (hn : ¬ n < 0) : 1 ≤ n ∧ 1 ≤ k := by
  have hp : 0 < n * k := by omega
  have hn' : 0 < n := by
    rcases (not_lt.1 hn).lt_or_eq with h | h
    · exact h
    · rw [← h] at hp
      simp at hp
  exact ⟨hn', (pos_iff_pos_of_mul_pos hp).1 hn'⟩

lemma shapeCoefficients_rectangular (i : ℕ) (r : Reaction String Scalar) :
    Gives (fun r' => r'.chebyshev = true → Rectangular r') (shapeCoefficients i r) := by
  unfold shapeCoefficients
  dsimp only
  split
  case isTrue hr =>
    split
    · exact gives_quit _ _
    · rename_i hl
      refine Gives.bind (Q := fun _ => 0 < (r.chebyshevCoefficients.getD []).flatten.length)
        (gives_lift fun x hx => ?_) fun first hp => ?_
      · have := entryAt_eq_ok.1 hx
        exact (List.getElem?_eq_some_iff.1 this).1
      refine gives_bind fun _ => gives_bind fun value => ?_
      split
      · exact Gives.bind (Q := fun _ => False) (gives_throw _) fun _ h => h.elim
      · rename_i hn
        refine gives_pure fun _ => ?_
        obtain ⟨hn', hk⟩ := dimensions_pos (not_not.1 hl) hp hn
        have hs : (((first + value) :: (r.chebyshevCoefficients.getD []).flatten.drop 1).length : ℤ) =
            r.temperatureTerms * r.pressureTerms := by
          rw [← not_not.1 hl, length_cons, length_drop]
          omega
        obtain ⟨hrw, hro⟩ := rowsOf_matrix hn' hk _ hs
        exact ⟨hn', hk, _, rfl, hrw, hro⟩
  case isFalse hr => exact gives_pure fun h => absurd h hr

/-! ## Names and weights -/

lemma checkNames_known (names : List String) (i : ℕ) (r : Reaction String Scalar) :
    Gives (fun _ => ∀ name ∈ r.reactants ++ r.products, name ∈ names) (checkNames names i r) := by
  unfold checkNames
  split
  · rename_i hs
    refine gives_pure fun name hn => ?_
    have he : (r.reactants ++ r.products).filter (!names.contains ·) = [] := by
      have := congrArg List.length hs
      rw [length_mergeSort] at this
      exact eq_nil_of_length_eq_zero this
    have := filter_eq_nil_iff.1 he name hn
    simpa using this
  · exact gives_bind fun _ => gives_quit _ _

lemma weighed_of_names_eq_nil {species : List (Species Scalar)}
    (h : (species.filter isWeightless).map (·.name) = []) : ∀ sp ∈ species, isWeightless sp = false := by
  intro sp hsp
  simpa using filter_eq_nil_iff.1 (map_eq_nil_iff.1 h) sp hsp

lemma completeSpecies_complete (thermo : Option (Except Fault (List (List Char))))
    (species : List (Species Scalar)) : Gives (fun species' => namesOf species' = namesOf species ∧
      ∀ sp ∈ species', isWeightless sp = false) (completeSpecies thermo species) := by
  unfold completeSpecies
  dsimp only
  split
  · split
    · refine gives_bind fun s => gives_bind fun lines => ?_
      refine (gives_lift (readThermo_names s.weights lines species)).bind fun species' hns => ?_
      split
      · rename_i hn
        exact gives_pure ⟨hns, weighed_of_names_eq_nil hn⟩
      · exact gives_quit _ _
    · exact Gives.bind (Q := fun _ => False) (gives_quit _ _) fun _ h => h.elim
  · rw [pure_bind]
    split
    · rename_i hn
      exact gives_pure ⟨rfl, weighed_of_names_eq_nil hn⟩
    · exact gives_quit _ _

/-! ## The whole mechanism -/

variable {r : Reaction String Scalar} {names : List String}

/-- What holds of a reaction before the splitting holds of its two directions. -/
lemma WellFormedReaction.forwardOnly (h : WellFormedReaction names r) : WellFormedReaction names (forwardOnly r) :=
  ⟨h.reactants, h.products, h.known, h.thirdBody, h.tabulated, h.chebyshev⟩

lemma WellFormedReaction.backward (h : WellFormedReaction names r) : WellFormedReaction names (backward r) := by
  refine ⟨h.products, h.reactants, fun name hn => ?_, h.thirdBody, h.tabulated, h.chebyshev⟩
  apply h.known
  rw [mem_append] at hn ⊢
  exact hn.symm

lemma wellFormedReaction_of_sound (hs : SoundReaction r) (hsh : r.chebyshev = true → Rectangular r)
    (hk : ∀ name ∈ r.reactants ++ r.products, name ∈ names) : WellFormedReaction names r where
  reactants := hs.reactants
  products := hs.products
  known := hk
  thirdBody := by
    rintro ⟨ht, hf⟩
    rw [hs.thirdBody ht] at hf
    cases hf
  tabulated := hs.tabulated
  chebyshev := hsh

section Read
variable {text : String} {thermo : Option (Except Fault String)} {s s' : Session} {m : Mechanism}

/-- What holds of the reactions that pass the checks, and of the directions that are split off, holds of all
reactions that are read. -/
lemma readMechanism_reactions (h : (readMechanism text thermo).start s = (.ok m, s'))
    {P : Reaction String Scalar → Prop} (hf : ∀ r, P r → P (forwardOnly r)) (hb : ∀ r, P r → P (backward r))
    (hP : ∀ r, SoundReaction r → (r.chebyshev = true → Rectangular r) →
      (∀ name ∈ r.reactants ++ r.products, name ∈ namesOf m.species) → P r) : ∀ r ∈ m.reactions, P r := by
  obtain ⟨d, s₁, rs, s₂, s₃, species, hd, hrs, hc, hs, rfl⟩ := readMechanismLines_eq_ok h
  have hsn : ∀ r ∈ rs, SoundReaction r :=
    listedReactions_sound (Text.lines text) s rs s₂ (Reader.start_bind_eq_ok.2 ⟨d, s₁, hd, hrs⟩)
  have hsh : ∀ r ∈ rs, r.chebyshev = true → Rectangular r :=
    gives_mapM (fun p _ => shapeCoefficients_rectangular p.2 p.1) s₁ rs s₂ hrs
  have hk := gives_forM (fun p _ => checkNames_known (namesOf d.species) p.2 p.1) s₂ () s₃ hc
  refine splitAllReverse_all hsn hf hb fun r hr => hP r (hsn r hr) (hsh r hr) ?_
  obtain ⟨i, hi, rfl⟩ := getElem_of_mem hr
  rw [(completeSpecies_complete _ _ s₃ species s' hs).1]
  exact hk (rs[i], i) (mk_mem_zipIdx_iff_getElem?.2 (List.getElem?_eq_getElem hi))

/-- Every mechanism that is read is well formed. -/
theorem mechanism_wellFormed (h : (readMechanism text thermo).start s = (.ok m, s')) : WellFormed m := by
  have hreactions := readMechanism_reactions h (fun _ h => h.forwardOnly) (fun _ h => h.backward)
    fun _ => wellFormedReaction_of_sound
  obtain ⟨d, s₁, rs, s₂, s₃, species, hd, -, -, hspecies, rfl⟩ := readMechanismLines_eq_ok h
  have hdraft : SoundDraft d := readFile_sound _ _ s d s₁ hd
  obtain ⟨hnames, hweights⟩ := completeSpecies_complete _ _ s₃ species s' hspecies
  exact ⟨hdraft.elements, hnames ▸ hdraft.species, hweights, hreactions⟩

end Read

/-- Two isomers with one reaction of each kind of pressure dependence. -/
def pressureFile : List (List Char) :=
  ["SPECIES A B\n".toList, "END\n".toList, "THERMO\n".toList, "300. 1000. 5000.\n".toList] ++
    hydrogenEntry 'A' ++ hydrogenEntry 'B' ++
    ["REACTIONS\n".toList, "A+M=B+M 1.0 0.0 0.0\n".toList, "REV /2.0 0.0 0.0/\n".toList,
      "A(+M)=>B(+M) 1.0 0.0 0.0\n".toList, "LOW /1.0 0.0 0.0/\n".toList,
      "2A(+B)=2B(+B) 1.0 0.0 0.0\n".toList, "PLOG /1.0 1.0 0.0 0.0/\n".toList]

theorem pressure_wellFormed : ∃ m s', (readMechanism (String.ofList pressureFile.flatten) none).start {} = (.ok m, s') ∧
      m.reactions.map (fun r => (r.thirdBody, r.falloff, r.plog)) =
        [(true, false, false), (true, false, false), (false, true, false), (false, false, true)] ∧
      WellFormed m := by
  have hseen : ((readMechanismLines pressureFile none).start {}).1.toOption.map
      (fun m => m.reactions.map fun r => (r.thirdBody, r.falloff, r.plog)) =
      some [(true, false, false), (true, false, false), (false, true, false), (false, false, true)] := by
    decide +kernel
  obtain ⟨m, s', hrun, hkinds⟩ := exists_reading (by decide +kernel) hseen
  exact ⟨m, s', hrun, hkinds, mechanism_wellFormed hrun⟩

end Kinetics.Reading
