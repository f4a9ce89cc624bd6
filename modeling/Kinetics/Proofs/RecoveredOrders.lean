import Kinetics.Proofs.HeaderMarks
import Kinetics.Proofs.MechanismOrders
/-!
# Orders recovered from generated code

Code that is compared with its mechanism may hold species and reactions in another order. The numbers
of both and the maps between the orders are recovered from the header, with the saved maps if the order
was searched for. They are those that the code was generated with, and the maps for the reactions with
some property, which are computed from them, restore the order of the mechanism (`recovered_orders`).
-/

open List

namespace Kinetics.Comparison

open Workspace Generation Emit Code Kinetics.Ordering

/-! ## Reactions with a property -/

/-- Maps for the reactions with a property, where `rf` lists all reactions in the order of the code:
`backward` brings what is listed in that order into the order of the mechanism, and `forward` does the
opposite. -/
structure Restores (p : ℕ → Bool) (k : ℕ) (rf forward backward : List ℕ) : Prop where
  inverse : InverseOrders (rf.filter p).length backward forward
  back : ∀ {β : Type} (v : ℕ → β), permuted backward ((rf.filter p).map v) = ((List.range k).filter p).map v
  forth : ∀ {β : Type} (v : ℕ → β), permuted forward (((List.range k).filter p).map v) = (rf.filter p).map v

lemma idxOf_map_ofNat (g : List ℕ) (i : ℕ) : (g.map Int.ofNat).idxOf (Int.ofNat i) = g.idxOf i := by
  unfold List.idxOf
  rw [findIdx_map]
  congr 1
  funext j
  simp

/-- Where the numbers of a list stand, from the least to the greatest. -/
lemma ranked_eq {g s : List ℕ} (hp : s.Perm g) (hs : s.Pairwise (· < ·)) :
    ranked (g.map Int.ofNat) = s.map (g.idxOf ·) := by
  -- a sorted list is determined by its members
  have hsr : (g.map Int.ofNat).mergeSort (· ≤ ·) = s.map Int.ofNat := by
    refine @List.Perm.eq_of_pairwise ℤ (fun x y => decide (x ≤ y) = true) _ _ ?_ ?_ ?_ ?_
    · intro x y _ _ hxy hyx
      rw [decide_eq_true_eq] at hxy hyx
      omega
    · apply pairwise_mergeSort
      · intro x y z hxy hyz
        rw [decide_eq_true_eq] at hxy hyz ⊢
        omega
      · intro x y
        rw [Bool.or_eq_true, decide_eq_true_eq, decide_eq_true_eq]
        omega
    · rw [pairwise_map]
      apply hs.imp
      intro x y hxy
      rw [decide_eq_true_eq]
      exact Int.ofNat_le.2 hxy.le
    · exact (mergeSort_perm _ _).trans (hp.symm.map _)
  rw [ranked, hsr, map_map]
  apply map_congr_left
  intro i _
  exact idxOf_map_ofNat g i

lemma inverse_eq {n : ℕ} {xs : List ℕ} (h : xs.Perm (List.range n)) :
    inverse xs = .ok ((List.range n).map (xs.idxOf ·)) := by
  have hl : xs.length = n := by simpa using h.length_eq
  unfold inverse
  rw [hl]
  refine mapM_eq_ok_map fun i hi => ?_
  rw [idxOf?_of_mem (h.mem_iff.2 hi)]

section Selected
variable {k : ℕ} {rf : List ℕ} (hrf : rf.Perm (List.range k)) (p : ℕ → Bool)
include hrf

/-- Where the reactions with a property, in the order of the mechanism, stand in that of the code. -/
lemma ranked_perm :
    (((List.range k).filter p).map ((rf.filter p).idxOf ·)).Perm (List.range (rf.filter p).length) := by
  have hn : (rf.filter p).Nodup := (hrf.nodup_iff.2 nodup_range).filter p
  have hs : (rf.filter p).map ((rf.filter p).idxOf ·) = List.range (rf.filter p).length := by
    apply ext_getElem
    · simp
    · intro i hi _
      rw [getElem_map, getElem_range, hn.idxOf_getElem]
  rw [← hs]
  exact (hrf.symm.filter p).map _

lemma restores_ranked : Restores p k rf ((List.range (rf.filter p).length).map
        ((((List.range k).filter p).map ((rf.filter p).idxOf ·)).idxOf ·))
      (((List.range k).filter p).map ((rf.filter p).idxOf ·)) := by
  have hin := inverseOrders_idxOf (ranked_perm hrf p)
  have hb : ∀ {β : Type} (v : ℕ → β),
      permuted (((List.range k).filter p).map ((rf.filter p).idxOf ·)) ((rf.filter p).map v) =
        ((List.range k).filter p).map v := by
    intro β v
    rw [permuted, filterMap_map, ← filterMap_eq_map]
    apply filterMap_congr
    intro i hi
    have hmem : i ∈ rf.filter p := (hrf.symm.filter p).subset hi
    have hlt := idxOf_lt_length_of_mem hmem
    simp [List.getElem?_eq_getElem hlt]
  refine ⟨hin, hb, fun v => ?_⟩
  rw [← hb v]
  exact hin.permuted_permuted (by simp)

end Selected

lemma filterAuxM_eq_ok {α : Type} {f : α → Except Fault Bool} {q : α → Bool} {xs : List α}
    (h : ∀ x ∈ xs, f x = .ok (q x)) (found : List α) :
    xs.filterAuxM f found = .ok ((xs.filter q).reverse ++ found) := by
  induction xs generalizing found with
  | nil => rfl
  | cons x xs ih =>
    rw [forall_mem_cons] at h
    rw [List.filterAuxM, h.1, ok_bind, ih h.2]
    cases hq : q x with
    | false => simp [hq]
    | true => simp [hq]

/-- Whether the reaction with a number has a property. -/
def Reference.has (r : Reference) (p : ReferenceReaction → Bool) (i : ℕ) : Bool := (r.reactions[i]?).any p

lemma select_eq {r : Reference} {rf : List ℕ} (hrf : rf.Perm (List.range r.reactions.length))
    (p : ReferenceReaction → Bool) : r.select p (rf.map Int.ofNat) = .ok ((rf.filter (r.has p)).map Int.ofNat) := by
  have hr : ∀ i ∈ rf, r.reaction (Int.ofNat i) = entryAt r.reactions i := by
    intro i _
    have hi : ¬ Int.ofNat i < 0 := Int.not_lt.2 (Int.natCast_nonneg i)
    unfold Reference.reaction entryFrom
    rfl
  have hs : ∀ x ∈ rf.map Int.ofNat, (do return p (← r.reaction x) : Except Fault Bool) = .ok (r.has p x.toNat) := by
    intro x hx
    obtain ⟨i, hi, rfl⟩ := mem_map.1 hx
    have hlt : i < r.reactions.length := mem_range.1 (hrf.subset hi)
    rw [hr i hi, entryAt_eq_ok.2 (List.getElem?_eq_getElem hlt), ok_bind]
    simp [Reference.has, hlt]
  unfold Reference.select List.filterM
  rw [filterAuxM_eq_ok hs, ok_bind, append_nil, reverse_reverse, filter_map]
  rfl

/-! ## All maps -/

/-- What the recovered maps say about the reactions, of which `rf` is the order in the code. -/
structure MapsReactions (r : Reference) (rf : List ℕ) (o : Orders) : Prop where
  order : o.order.reactionsForward = rf.map Int.ofNat
  reversible : Restores (r.has (·.reversible)) r.reactions.length rf o.reversibleForward o.reversibleBackward
  modified : Restores (r.has (·.kind.isModified)) r.reactions.length rf o.modifiedForward o.modifiedBackward

lemma recoverOrders_of_order {r : Reference} {he : String} {saved : Except Fault (List (List ℤ))}
    {reordered : Bool} {order : SavedOrder} {rf : List ℕ}
    (ho : orderOf r (readMarks {} (Text.lines he)) saved = .ok (reordered, order))
    (hf : order.reactionsForward = rf.map Int.ofNat)
    (hrf : rf.Perm (List.range r.reactions.length)) :
    ∃ o, recoverOrders r he saved = .ok o ∧ o.last = (readMarks {} (Text.lines he)).last ∧
      o.order = order ∧ MapsReactions r rf o := by
  have hr : ∀ p : ℕ → Bool, ranked ((rf.filter p).map Int.ofNat) =
      ((List.range r.reactions.length).filter p).map ((rf.filter p).idxOf ·) := fun p =>
    ranked_eq (hrf.symm.filter p) (pairwise_lt_range.filter p)
  have hn : (List.range r.reactions.length).mapM (entryAt (rf.map Int.ofNat)) = .ok (rf.map Int.ofNat) := by
    have hl : r.reactions.length = (rf.map Int.ofNat).length := by
      rw [length_map, hrf.length_eq, length_range]
    rw [hl, mapM_entryAt (fun i hi => mem_range.1 hi), permuted_range]
  unfold recoverOrders
  dsimp only
  rw [ho, ok_bind]
  rw [hf, select_eq hrf, ok_bind, hr, inverse_eq (ranked_perm hrf _), ok_bind, hn, ok_bind,
    select_eq hrf, ok_bind, hr, inverse_eq (ranked_perm hrf _), ok_bind]
  exact ⟨_, rfl, rfl, rfl, hf, restores_ranked hrf _, restores_ranked hrf _⟩

/-! ## Generated code -/

lemma mechanismHeader_ok {l : Language} (h : l = .c ∨ l = .cuda) (arrays : List (String × String))
    (names : List String) (rs : List (Reaction ℕ Scalar)) (o : SpeciesOrder) :
    ∃ he, mechanismHeader l arrays names rs o = .ok he := by
  rcases h with rfl | rfl
  · exact ⟨_, rfl⟩
  · exact ⟨_, rfl⟩

lemma mechanismHeader_eq_ok {l : Language} {arrays : List (String × String)} {names : List String}
    {rs : List (Reaction ℕ Scalar)} {o : SpeciesOrder} {he : SourceFile Scalar}
    (h : mechanismHeader l arrays names rs o = .ok he) :
    ∃ suffix, headerOnly l = .ok suffix ∧ he.path = "mechanism" ++ suffix ∧
      he.text = mechanismHeaderText l suffix arrays names rs o := by
  obtain ⟨suffix, hs, h⟩ := bind_eq_ok.1 h
  cases pure_eq_ok.1 h
  exact ⟨suffix, hs, rfl, String.empty_append⟩

def savedLists (o : Reordered Scalar) : List (List ℤ) :=
  [o.speciesForward, o.reactionsForward.map Int.ofNat, o.speciesBackward.map Int.ofNat,
    o.reactionsBackward.map Int.ofNat]

def savedIn (kept : Option (Reordered Scalar)) : Except Fault (List (List ℤ)) :=
  kept.elim (.error .noSuchFile) fun o => .ok (savedLists o)

/-- The numbers and orders that are recovered with a header are those of the arrangement. -/
structure Recovers (r : Reference) (last : ℕ) (a : Arrangement) (saved : Except Fault (List (List ℤ)))
    (header : String) : Prop where
  counts : declaredCounts header = (some r.speciesCount, some r.reactions.length)
  agrees : countMismatch r header = none
  orders : ∃ o rf, recoverOrders r header saved = .ok o ∧ o.last = some last ∧
    o.order.speciesForward = a.order.forward ∧ o.order.speciesBackward = a.order.backward ∧
    a.reactionMap = rf.map Int.ofNat ∧ rf.Perm (List.range r.reactions.length) ∧ MapsReactions r rf o

section Arranged
variable {m : Reading.Mechanism} {last : ℕ} {a : Arrangement} {f g rf : List ℕ}
  {kept : Option (Reordered Scalar)} {r : Reference} (harranged : Arranged m last a f g rf)
  (htraced : Traced m last a f g rf kept) (hlast : last < m.species.length)
  (hspecies : r.speciesCount = m.species.length) (hreactions : r.reactions.length = m.reactions.length)
include harranged htraced hlast hspecies hreactions

lemma orderOf_traced : ∃ reordered order,
    orderOf r ⟨a.order.optimized, some last⟩ (savedIn kept) = .ok (reordered, order) ∧
      order.speciesForward = a.order.forward ∧ order.speciesBackward = a.order.backward ∧
      order.reactionsForward = rf.map Int.ofNat := by
  rw [harranged.forward, harranged.backward]
  unfold orderOf
  dsimp only
  rw [hspecies, hreactions]
  cases htraced with
  | searched ho hf hb hrf =>
    rw [ho, if_pos rfl]
    exact ⟨true, _, rfl, hf, by rw [← hb], by rw [← hrf]⟩
  | moved ho hf hb hrf =>
    rw [ho, if_neg (by decide)]
    by_cases hend : last + 1 = m.species.length
    · rw [if_pos hend]
      refine ⟨false, _, rfl, ?_, ?_, by rw [hrf]; rfl⟩
      · rw [hf, forwardMap_self hend]
        rfl
      · rw [hb, backwardMap_self hend]
        rfl
    · have hm : lastSpeciesMaps m.species.length last =
          .ok (forwardMap m.species.length last, backwardMap m.species.length last) := by
        simp [lastSpeciesMaps, hlast]
      rw [if_neg hend, hm]
      exact ⟨true, _, rfl, by rw [hf], by rw [hb], by rw [hrf]; rfl⟩

lemma recovers_of_signs {he : String}
    (h : Says he (headerSigns a.order.optimized last m.species.length m.reactions.length)) :
    Recovers r last a (savedIn kept) he := by
  have hc : declaredCounts he = (some r.speciesCount, some r.reactions.length) := by
    rw [h.counts, hspecies, hreactions]
  obtain ⟨reordered, order, hor, hf, hb, hrf⟩ := orderOf_traced harranged htraced hlast hspecies hreactions
  rw [← h.marks] at hor
  have hp : rf.Perm (List.range r.reactions.length) := by
    rw [hreactions]
    exact harranged.reactions
  obtain ⟨o, ho, hol, hod, hm⟩ := recoverOrders_of_order hor hrf hp
  refine ⟨hc, ?_, o, rf, ho, ?_, ?_, ?_, harranged.reactionMap, hp, hm⟩
  · simp [countMismatch, hc]
  · rw [hol, h.marks]
  · rw [hod, hf]
  · rw [hod, hb]

lemma header_recovers (hns : ∀ sp ∈ m.species, ∀ c ∈ sp.name.toList, Text.isBlank c = false)
    (hn : m.species.length < 10 ^ Number.wholeDigitLimit)
    (hk : m.reactions.length < 10 ^ Number.wholeDigitLimit) {rs : List (Reaction ℕ Scalar)}
    (hc : rs.length = a.reactions.length) {l : Language} {arrays : List (String × String)}
    (ha : deviceArrays a.species rs = .ok arrays) {he : SourceFile Scalar}
    (hh : mechanismHeader l arrays (a.species.map (·.name)) rs a.order = .ok he) :
    Recovers r last a (savedIn kept) he.text := by
  obtain ⟨suffix, hsf, -, ht⟩ := mechanismHeader_eq_ok hh
  have hl : (a.species.map (·.name)).length = m.species.length := by
    rw [length_map, harranged.speciesCount]
  have hc' : rs.length = m.reactions.length := hc.trans harranged.reactionCount
  have hne : a.species.map (·.name) ≠ [] := by
    apply ne_nil_of_length_pos
    omega
  have hb : ∀ name ∈ a.species.map (·.name), ∀ c ∈ name.toList, Text.isBlank c = false := by
    intro name hnm
    obtain ⟨sp, hsp, rfl⟩ := mem_map.1 hnm
    obtain ⟨sp', hsp', hsm⟩ := harranged.names sp hsp
    rw [hsm]
    exact hns sp' hsp'
  have hs := header_signs hsf (deviceArrays_names _ _ _ ha) hne hb rs
    harranged.last (hlast.trans hn) (by rwa [hl]) (by rwa [hc'])
  rw [hl, hc', ← ht] at hs
  exact recovers_of_signs harranged htraced hlast hspecies hreactions hs

end Arranged

/-- The orders of generated code are recovered from its header and the saved maps. At the start there
are no saved maps, and every run leaves sound ones. The names of the species have no blanks, and the
numbers of species and reactions are not longer than numerals may be. For any maps that are saved,
whatever the order of the reactions, the maps for reversible reactions and for those with modified
rates restore the order of the mechanism. -/
theorem recovered_orders : SoundOrders {} ∧
    (∀ (s : Settings) (m : Reading.Mechanism) (last : ℕ) (host : Host) (st : State),
      last < m.species.length → SoundOrders st → SoundOrders ((arrange s m last).start host st).2 ∧
      ∀ a st', (arrange s m last).start host st = (.ok a, st') →
        (∀ sp ∈ m.species, ∀ c ∈ sp.name.toList, Text.isBlank c = false) →
        m.species.length < 10 ^ Number.wholeDigitLimit → m.reactions.length < 10 ^ Number.wholeDigitLimit →
        ∀ r : Reference, r.speciesCount = m.species.length → r.reactions.length = m.reactions.length →
        ∀ reactions : List (Reaction ℕ Scalar), reactions.length = a.reactions.length →
          (∀ l arrays, l = .c ∨ l = .cuda → deviceArrays a.species reactions = .ok arrays →
            ∃ header, mechanismHeader l arrays (a.species.map (·.name)) reactions a.order = .ok header ∧
              Recovers r last a (savedIn (keptOrder host s.build st')) header.text) ∧
          ∀ t initial files, Emit.mechanismFiles t a.species reactions a.order initial = .ok files →
            ∃ header ∈ files, (∃ suffix, headerOnly t.language = .ok suffix ∧ header.path = "mechanism" ++ suffix) ∧
              Recovers r last a (savedIn (keptOrder host s.build st')) header.text) ∧
    ∀ (r : Reference) (header : String) (sf sb rb : List ℤ) (rf : List ℕ),
      (readMarks {} (Text.lines header)).reordered = true → rf.Perm (List.range r.reactions.length) →
      ∃ o, recoverOrders r header (.ok [sf, rf.map Int.ofNat, sb, rb]) = .ok o ∧
        o.order = ⟨sf, rf.map Int.ofNat, sb, rb⟩ ∧ MapsReactions r rf o := by
  refine ⟨by simp [SoundOrders], ?_, ?_⟩
  · intro s m last host st hlast hst
    refine ⟨(arrange_sound hlast hst rfl).1, ?_⟩
    intro a st' hrun hnames hn hk r hspecies hreactions reactions hcount
    obtain ⟨f, g, rf, harranged, htraced⟩ := (arrange_sound hlast hst hrun).2 a rfl
    have hrecovers := @header_recovers m last a f g rf _ r harranged htraced hlast hspecies hreactions
      hnames hn hk reactions hcount
    constructor
    · intro l arrays hl harrays
      obtain ⟨header, hheader⟩ := mechanismHeader_ok hl arrays (a.species.map (·.name)) reactions a.order
      exact ⟨header, hheader, hrecovers harrays hheader⟩
    · intro t initial files hfiles
      obtain ⟨arrays, -, header, -, harrays, hheader, -, hmem, -⟩ := mechanismFiles_eq_ok hfiles
      obtain ⟨suffix, hsuffix, hpath, -⟩ := mechanismHeader_eq_ok hheader
      exact ⟨header, hmem, ⟨suffix, hsuffix, hpath⟩, hrecovers harrays hheader⟩
  · intro r header sf sb rb rf hmarks hrf
    have horder : orderOf r (readMarks {} (Text.lines header)) (.ok [sf, rf.map Int.ofNat, sb, rb]) =
        .ok (true, ⟨sf, rf.map Int.ofNat, sb, rb⟩) := by
      unfold orderOf
      dsimp only
      rw [hmarks, if_pos rfl]
      rfl
    obtain ⟨o, ho, -, hoorder, hmaps⟩ := recoverOrders_of_order horder rfl hrf
    exact ⟨o, ho, hoorder, hmaps⟩

/-! ### Isomers -/

def isomerization (reversible : Bool) (before after : String) : Reaction String Scalar :=
  .elementary reversible [before] [.int 1] [after] [.int 1] (.float 1) (.float 0) (.float 0)

def isomers : Reading.Mechanism where
  species := [Species.named "A", Species.named "B", Species.named "C"]
  reactions := [isomerization true "A" "B", isomerization false "B" "C"]

def isomerOrder : Reordered Scalar where
  species := [Species.named "B", Species.named "C", Species.named "A"]
  reactions := [isomerization false "B" "C", isomerization true "A" "B"]
  speciesForward := [1, 2, 0]
  reactionsForward := [1, 0]
  speciesBackward := [2, 0, 1]
  reactionsBackward := [1, 0]

/-- A folder for which the order of the isomers is kept. -/
def isomerState : State where
  orders := [((({} : State).folder.locate "." "./out/").toOption.getD [], isomerOrder)]

lemma isomerState_sound : SoundOrders isomerState := by
  have hspecies := @inverseOrders_idxOf 3 [1, 2, 0] (by decide)
  have hreactions := @inverseOrders_idxOf 2 [1, 0] (by decide)
  intro p hp
  rw [mem_singleton.1 hp]
  exact ⟨⟨[1, 2, 0], rfl, hspecies⟩, hreactions⟩

/-- The reactions of the isomers in that order, with positions in place of names. -/
def indexedIsomers : List (Reaction ℕ Scalar) :=
  [.elementary false [0] [.int 1] [1] [.int 1] (.float 1) (.float 0) (.float 0),
    .elementary true [2] [.int 1] [0] [.int 1] (.float 1) (.float 0) (.float 0)]

lemma isomers_unblank : ∀ sp ∈ isomers.species, ∀ c ∈ sp.name.toList, Text.isBlank c = false := by
  have hall : (isomers.species.all fun sp => sp.name.toList.all fun c => !Text.isBlank c) = true := by
    decide +kernel
  intro sp hsp c hc
  simpa using all_eq_true.1 (all_eq_true.1 hall sp hsp) c hc

theorem isomers_recovered : (∃ a st' arrays, ∃ header : SourceFile Scalar,
      (arrange { language := "c", optimize := true } isomers 0).start {} isomerState = (.ok a, st') ∧
      a.order.forward = [1, 2, 0] ∧
      mechanismHeader .c arrays (a.species.map (·.name)) indexedIsomers a.order = .ok header ∧
      Recovers ⟨3, [⟨.elementary, true⟩, ⟨.elementary, false⟩]⟩ 0 a (savedIn (keptOrder {} "./out/" st')) header.text) ∧
    ∃ o, recoverOrders ⟨1, [⟨.threeBody, true⟩, ⟨.elementary, false⟩, ⟨.falloff, true⟩]⟩
        "//Cache Optimized\n//last_spec 0\n" (.ok [[0], [2, 0, 1], [0], [1, 2, 0]]) = .ok o ∧
      permuted o.modifiedBackward ["third", "first"] = ["first", "third"] := by
  obtain ⟨-, hruns, hmaps⟩ := recovered_orders
  constructor
  · have hseen : (((arrange { language := "c", optimize := true } isomers 0).start {}
        isomerState).1.toOption.map fun a => (a.order.forward, a.species.length, a.reactions.length)) =
          some ([1, 2, 0], 3, 2) := by
      decide +kernel
    rcases hrun : (arrange { language := "c", optimize := true } isomers 0).start {} isomerState with
      ⟨e | a, st'⟩
    · rw [hrun] at hseen
      cases hseen
    · rw [hrun] at hseen
      obtain ⟨hforward, hspecies, hreactions⟩ : a.order.forward = [1, 2, 0] ∧ a.species.length = 3 ∧
          a.reactions.length = 2 := by simpa using Option.some.inj hseen
      obtain ⟨arrays, harrays⟩ : ∃ arrays, deviceArrays a.species indexedIsomers = .ok arrays := by
        unfold deviceArrays
        rw [hspecies]
        exact ⟨_, rfl⟩
      have hfound := (hruns _ isomers 0 _ isomerState (by decide) isomerState_sound).2 a st' hrun
        isomers_unblank (by decide +kernel) (by decide +kernel)
        ⟨3, [⟨.elementary, true⟩, ⟨.elementary, false⟩]⟩ rfl rfl indexedIsomers hreactions.symm
      obtain ⟨header, hheader, hrecovers⟩ := hfound.1 .c arrays (.inl rfl) harrays
      exact ⟨a, st', arrays, header, rfl, hforward, hheader, hrecovers⟩
  · obtain ⟨o, ho, -, hreactions⟩ := hmaps ⟨1, [⟨.threeBody, true⟩, ⟨.elementary, false⟩, ⟨.falloff, true⟩]⟩
      "//Cache Optimized\n//last_spec 0\n" [0] [0] [1, 2, 0] [2, 0, 1] (by decide +kernel) (by decide)
    exact ⟨o, ho, hreactions.modified.back fun i => ["first", "second", "third"].getD i ""⟩

end Kinetics.Comparison
