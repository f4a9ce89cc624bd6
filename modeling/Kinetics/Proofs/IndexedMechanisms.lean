import Kinetics.Proofs.WellFormedMechanisms
/-!
# Names that become positions

Code is generated from reactions that refer to species by position. Names enter a reaction in four
places, and reading checks two of them: the reactants and the products. The names of efficiencies
and of a particular collider are taken as they are written, so a mechanism that was read without
fault can be indexed exactly if it lists these species too (`indexed_mechanism`).
-/

open List

namespace Kinetics.Reading

def Carries (species : List (Species Scalar)) (name : String) (k : ℕ) : Prop := (namesOf species)[k]? = some name

/-- A reaction in which every name was replaced by the position of its species, and nothing else was
changed. -/
structure Indexed (species : List (Species Scalar)) (r : Reaction String Scalar) (r' : Reaction ℕ Scalar) : Prop where
  reactants : List.Forall₂ (Carries species) r.reactants r'.reactants
  products : List.Forall₂ (Carries species) r.products r'.products
  efficiencies : List.Forall₂ (fun x y => Carries species x.1 y.1 ∧ y.2 = x.2) r.efficiencies r'.efficiencies
  collider : Option.Rel (Carries species) r.collider r'.collider
  rest : r' = { r with
    reactants := r'.reactants, products := r'.products, efficiencies := r'.efficiencies
    collider := r'.collider }

/-- The species that a reaction names outside of its equation. -/
def bystanders (r : Reaction String Scalar) : List String := r.efficiencies.map (·.1) ++ r.collider.toList

/-- The names among some that a list of species lacks, in order. -/
def lacking (species : List (Species Scalar)) (names : List String) : List String :=
  names.filter fun name => !(namesOf species).contains name

/-- The species that are named in a mechanism outside of equations and are not listed in it. -/
def unlisted (m : Mechanism) : List String := lacking m.species (m.reactions.flatMap bystanders)

/-! ## One name -/

variable {name : String} {names : List String}

section Names
variable {sp : List (Species Scalar)}

lemma speciesIndex_of_mem (h : name ∈ namesOf sp) :
    ∃ k, speciesIndex (namesOf sp) name = .ok k ∧ Carries sp name k := by
  obtain ⟨i, hi⟩ := Option.isSome_iff_exists.1 (isSome_idxOf?.2 (mem_reverse.2 h))
  refine ⟨(namesOf sp).length - 1 - i, by rw [speciesIndex, hi], ?_⟩
  obtain ⟨hlt, hat, -⟩ := List.idxOf?_eq_some_iff.1 hi
  rw [Carries, ← List.getElem?_reverse (by simpa using hlt), List.getElem?_eq_getElem hlt, hat]

lemma speciesIndex_of_not_mem (h : name ∉ namesOf sp) :
    speciesIndex (namesOf sp) name = .error (.unknownName name) := by
  have hn : (namesOf sp).reverse.idxOf? name = none := List.idxOf?_eq_none_iff.2 fun hm => h (mem_reverse.1 hm)
  rw [speciesIndex, hn]

lemma lacking_eq_nil : lacking sp names = [] ↔ ∀ name ∈ names, name ∈ namesOf sp := by
  simp [lacking, filter_eq_nil_iff]

lemma lacking_append (xs ys : List String) : lacking sp (xs ++ ys) = lacking sp xs ++ lacking sp ys :=
  filter_append _ _

lemma lacking_perm {other : List (Species Scalar)} (h : other.Perm sp) (names : List String) :
    lacking other names = lacking sp names := by
  have hn : (namesOf other).Perm (namesOf sp) := h.map _
  refine filter_congr fun name _ => congrArg (!·) ?_
  rw [Bool.eq_iff_iff, contains_iff_mem, contains_iff_mem]
  exact hn.mem_iff

end Names

/-! ## One reaction -/

variable {rest : List String}

section Reactions
variable {sp : List (Species Scalar)}

lemma speciesIndexes_of_mem (h : ∀ name ∈ names, name ∈ namesOf sp) :
    ∃ ks, names.mapM (speciesIndex (namesOf sp)) = .ok ks ∧ List.Forall₂ (Carries sp) names ks :=
  mapM_ok_rel fun name hn => speciesIndex_of_mem (h name hn)

/-- The first name that is lacking stands behind names that are listed. -/
lemma lacking_eq_cons {names rest : List String} (h : lacking sp names = name :: rest) :
    ∃ before after, names = before ++ name :: after ∧ (∀ n ∈ before, n ∈ namesOf sp) ∧ name ∉ namesOf sp := by
  obtain ⟨before, after, hs, hb, hnm, -⟩ := filter_eq_cons_iff.1 h
  refine ⟨before, after, hs, fun n hn => ?_, by simpa using hnm⟩
  simpa using hb n hn

section Mapped
variable {r : Reaction String Scalar} (hequation : ∀ name ∈ r.reactants ++ r.products, name ∈ namesOf sp)
include hequation

omit hequation in
lemma efficiencies_indexed (h : ∀ x ∈ r.efficiencies, x.1 ∈ namesOf sp) :
    ∃ ys, (r.efficiencies.mapM fun x => do return (← speciesIndex (namesOf sp) x.1, x.2)) = .ok ys ∧
      List.Forall₂ (fun x y => Carries sp x.1 y.1 ∧ y.2 = x.2) r.efficiencies ys := by
  apply mapM_ok_rel
  intro x hx
  obtain ⟨k, hk, hc⟩ := speciesIndex_of_mem (h x hx)
  refine ⟨(k, x.2), ?_, hc, rfl⟩
  rw [hk]
  rfl

lemma mapSpecies_indexed (hn : lacking sp (bystanders r) = []) :
    ∃ r', r.mapSpecies (speciesIndex (namesOf sp)) = .ok r' ∧ Indexed sp r r' := by
  rw [forall_mem_append] at hequation
  rw [bystanders, lacking_append, append_eq_nil_iff, lacking_eq_nil, lacking_eq_nil, forall_mem_map] at hn
  obtain ⟨reactants, hrc, hl⟩ := speciesIndexes_of_mem hequation.1
  obtain ⟨products, hpr, hr⟩ := speciesIndexes_of_mem hequation.2
  obtain ⟨efficiencies, he, hp⟩ := efficiencies_indexed hn.1
  unfold Reaction.mapSpecies
  rw [hrc, ok_bind, hpr, ok_bind, he, ok_bind]
  cases hc : r.collider with
  | none => exact ⟨_, rfl, hl, hr, hp, by rw [hc]; exact .none, rfl⟩
  | some name =>
    obtain ⟨k, hk, hcr⟩ := speciesIndex_of_mem (hn.2 name (by simp [hc]))
    dsimp only
    rw [hk]
    exact ⟨_, rfl, hl, hr, hp, by rw [hc]; exact .some hcr, rfl⟩

/-- A reaction with species that are not listed stops at the first one. -/
lemma mapSpecies_lacking (hf : lacking sp (bystanders r) = name :: rest) :
    r.mapSpecies (speciesIndex (namesOf sp)) = .error (.unknownName name) := by
  rw [forall_mem_append] at hequation
  obtain ⟨reactants, hr, -⟩ := speciesIndexes_of_mem hequation.1
  obtain ⟨products, hp, -⟩ := speciesIndexes_of_mem hequation.2
  unfold Reaction.mapSpecies
  rw [hr, ok_bind, hp, ok_bind]
  rw [bystanders, lacking_append] at hf
  cases hkn : lacking sp (r.efficiencies.map (·.1)) with
  | nil =>
    rw [hkn, nil_append] at hf
    rw [lacking_eq_nil, forall_mem_map] at hkn
    obtain ⟨efficiencies, he, -⟩ := efficiencies_indexed hkn
    obtain ⟨before, after, hcl, -, hn⟩ := lacking_eq_cons hf
    have hs : r.collider = some name := by
      cases hc : r.collider with
      | none => simp [hc] at hcl
      | some n =>
        rw [hc, Option.toList_some] at hcl
        have hm : name ∈ [n] := by simp [hcl]
        rw [mem_singleton.1 hm]
    rw [he, ok_bind, hs]
    dsimp only
    rw [speciesIndex_of_not_mem hn]
    rfl
  | cons n others =>
    rw [hkn, cons_append, List.cons.injEq] at hf
    obtain ⟨rfl, -⟩ := hf
    obtain ⟨before, after, hsp, hb, hn⟩ := lacking_eq_cons hkn
    obtain ⟨xs, ys, hpr, rfl, hys⟩ := map_eq_append_iff.1 hsp
    obtain ⟨x, zs, rfl, rfl, -⟩ := map_eq_cons_iff.1 hys
    rw [forall_mem_map] at hb
    have hst : (r.efficiencies.mapM fun x => do
        return (← speciesIndex (namesOf sp) x.1, x.2)) = .error (.unknownName x.1) := by
      rw [hpr]
      apply mapM_eq_error
      · intro y hy
        obtain ⟨k, hk, -⟩ := speciesIndex_of_mem (hb y hy)
        exact ⟨(k, y.2), by rw [hk]; rfl⟩
      · rw [speciesIndex_of_not_mem hn]
        rfl
    rw [hst]
    rfl

end Mapped

end Reactions

/-! ## The whole mechanism -/

section Mechanism
variable {sp : List (Species Scalar)} {reactions : List (Reaction String Scalar)}
  (hequations : ∀ r ∈ reactions, ∀ name ∈ r.reactants ++ r.products, name ∈ namesOf sp)
include hequations

lemma indexReactions_indexed (hn : lacking sp (reactions.flatMap bystanders) = []) :
    ∃ rs, indexReactions (namesOf sp) reactions = .ok rs ∧ List.Forall₂ (Indexed sp) reactions rs := by
  apply mapM_ok_rel
  intro r hr
  apply mapSpecies_indexed (hequations r hr)
  rw [lacking_eq_nil] at hn ⊢
  intro name hnm
  exact hn name (mem_flatMap_of_mem hr hnm)

lemma indexReactions_lacking (hf : lacking sp (reactions.flatMap bystanders) = name :: rest) :
    indexReactions (namesOf sp) reactions = .error (.unknownName name) := by
  unfold indexReactions
  induction reactions with
  | nil => cases hf
  | cons r reactions ih =>
    rw [forall_mem_cons] at hequations
    rw [flatMap_cons, lacking_append] at hf
    rw [mapM_cons]
    cases hr : lacking sp (bystanders r) with
    | nil =>
      obtain ⟨r', hr', -⟩ := mapSpecies_indexed hequations.1 hr
      rw [hr, nil_append] at hf
      rw [hr', ok_bind, ih hequations.2 hf]
      rfl
    | cons n others =>
      rw [hr, cons_append, List.cons.injEq] at hf
      obtain ⟨rfl, -⟩ := hf
      rw [mapSpecies_lacking hequations.1 hr]
      rfl

end Mechanism

/-- Reading refuses equations with species that are not listed, and splitting off reverse directions
adds none. -/
lemma readMechanism_known {text : String} {thermo : Option (Except Fault String)} {s s' : Session}
    {m : Mechanism} (h : (readMechanism text thermo).start s = (.ok m, s')) :
    ∀ r ∈ m.reactions, ∀ name ∈ r.reactants ++ r.products, name ∈ namesOf m.species := by
  refine readMechanism_reactions h (fun _ h => h) (fun _ h name hn => ?_) fun r _ _ hk => hk
  apply h
  rw [mem_append] at hn ⊢
  exact hn.symm

/-- A mechanism that was read can be indexed in any order of its species if every species that it
names is listed. Otherwise the first one that is not, which is then an efficiency or a collider, is
reported as unknown. -/
theorem indexed_mechanism {text : String} {thermo : Option (Except Fault String)} {s s' : Session}
    {m : Mechanism} (h : (readMechanism text thermo).start s = (.ok m, s'))
    {species : List (Species Scalar)} (horder : species.Perm m.species) :
    (unlisted m = [] → ∃ rs, indexReactions (namesOf species) m.reactions = .ok rs ∧
      List.Forall₂ (Indexed species) m.reactions rs) ∧
    ∀ name rest, unlisted m = name :: rest →
      indexReactions (namesOf species) m.reactions = .error (.unknownName name) := by
  have hequations : ∀ r ∈ m.reactions, ∀ name ∈ r.reactants ++ r.products, name ∈ namesOf species := by
    intro r hr name hname
    have hnames : (namesOf species).Perm (namesOf m.species) := horder.map _
    exact hnames.mem_iff.2 (readMechanism_known h r hr name hname)
  unfold unlisted
  rw [← lacking_perm horder]
  exact ⟨indexReactions_indexed hequations, fun _ _ => indexReactions_lacking hequations⟩

/-- Two isomers with a third-body reaction and an efficiency of a species that is not listed. -/
def strangerFile : List (List Char) :=
  ["SPECIES A B\n".toList, "END\n".toList, "THERMO\n".toList, "300. 1000. 5000.\n".toList] ++
    hydrogenEntry 'A' ++ hydrogenEntry 'B' ++
    ["REACTIONS\n".toList, "A+M=>B+M 1.0 0.0 0.0\n".toList, "C /2.0/\n".toList, "END\n".toList]

theorem stranger_unindexed :
    ∃ m s', (readMechanism (String.ofList strangerFile.flatten) none).start {} = (.ok m, s') ∧ unlisted m = ["C"] ∧
      indexReactions (namesOf m.species.reverse) m.reactions = .error (.unknownName "C") := by
  have hseen : ((readMechanismLines strangerFile none).start {}).1.toOption.map unlisted = some ["C"] := by
    decide +kernel
  obtain ⟨m, s', hrun, hnames⟩ := exists_reading (by decide +kernel) hseen
  exact ⟨m, s', hrun, hnames, (indexed_mechanism hrun m.species.reverse_perm).2 _ _ hnames⟩

end Kinetics.Reading
