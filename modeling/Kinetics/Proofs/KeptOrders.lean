import Kinetics.Proofs.Exact
import Kinetics.Proofs.MechanismOrders
/-!
# Orders that are used again

A request for an order may find the result of an earlier one. That result is taken if the mechanism it was found
for resembles the requested one, whatever the order of the two and whatever stands more than once in them. Its
maps are still orders of the requested mechanism and inverse to each other, but its lists are those of the
earlier mechanism (`request_arranges`).
-/

open List

namespace Kinetics.Ordering

open Kinetics.Random

variable {α : Type} [Arithmetic α]

/-- A mechanism that is to be put into an order, and how. -/
structure Request (α : Type) where
  source : Source
  effort : Effort
  species : List (Species α)
  reactions : List (Reaction String α)
  last : ℤ
  force : Bool

namespace Request

/-- What a request gives at a desk, and how it leaves the desk. -/
def run (r : Request α) (d : Desk α) : Except Fault (Reordered α) × Desk α :=
  runFrom (optimize r.source r.effort r.species r.reactions r.last r.force) d

/-- The position of the last species; a negative number counts from the end. -/
def lastPlace (r : Request α) : ℤ := if r.last < 0 then r.last + r.species.length else r.last

/-- The mechanism of a request is taken for that of a later one. -/
structure TakenFor (m r : Request α) : Prop where
  species : ∀ s ∈ m.species, ∃ t ∈ r.species, s.resembles t = true
  speciesCount : r.species.length = m.species.length
  reactions : ∀ x ∈ m.reactions, ∃ y ∈ r.reactions, x.resembles y = true
  reactionCount : r.reactions.length = m.reactions.length
  last : m.last = r.lastPlace

end Request

/-- What is kept after some requests, the latest first: each of them finds what the one before it has left. -/
inductive Left : List (Request α) → Option (Reordered α) → Prop
  | nothing : Left [] none
  | request {past : List (Request α)} {d : Desk α} (h : Left past d.kept) (r : Request α) :
      Left (r :: past) (r.run d).2.kept

namespace Reordered

/-- The result of a search for the mechanism of a request. -/
structure FoundFor (o : Reordered α) (r : Request α) (f : List ℕ) : Prop where
  arranges : o.Arranges r.species r.reactions f
  last : o.speciesForward.getLast? = some r.last

/-- The maps are orders of the mechanism of a request, with its last species at the end, and inverse to each
other. -/
structure Maps (o : Reordered α) (r : Request α) (f : List ℕ) : Prop where
  forward : o.speciesForward = f.map Int.ofNat
  species : InverseOrders r.species.length f o.speciesBackward
  reactions : InverseOrders r.reactions.length o.reactionsForward o.reactionsBackward
  last : o.speciesForward.getLast? = some r.lastPlace

end Reordered

/-! ## Lists in the order of a map -/

section Orders
variable {β : Type} {n : ℕ} {f g : List ℕ} (h : InverseOrders n f g) {v w : List β} (hv : v.length = n)
include h hv

lemma mem_permuted {x : β} : x ∈ permuted f v ↔ x ∈ v := by
  constructor
  · intro hx
    obtain ⟨k, -, hk⟩ := mem_filterMap.1 hx
    exact mem_of_getElem? hk
  · intro hx
    rw [← h.permuted_permuted hv] at hx
    obtain ⟨k, -, hk⟩ := mem_filterMap.1 hx
    exact mem_of_getElem? hk

lemma permuted_inj (hw : w.length = n) : permuted f v = permuted f w ↔ v = w := by
  constructor
  · intro heq
    rw [← h.permuted_permuted hv, heq, h.permuted_permuted hw]
  · rintro rfl
    rfl

end Orders

/-! ## When a result is taken -/

section Places
omit [Arithmetic α]
variable {o : Reordered α} {m r : Request α} {f : List ℕ}

lemma entryFrom_eq_ok {β : Type} {xs : List β} {i : ℤ} {x : β} :
    entryFrom xs i = .ok x ↔ ∃ k : ℕ, (k : ℤ) = (if i < 0 then i + xs.length else i) ∧ xs[k]? = some x := by
  unfold entryFrom
  extract_lets place
  change _ ↔ ∃ k : ℕ, (k : ℤ) = place ∧ _
  split
  · next hng =>
    constructor
    · rintro ⟨⟩
    · rintro ⟨k, hk, -⟩
      omega
  · next hn =>
    rw [entryAt_eq_ok]
    constructor
    · intro hx
      exact ⟨place.toNat, by omega, hx⟩
    · rintro ⟨k, hk, hx⟩
      rwa [← hk, Int.toNat_natCast]

lemma otherLast_eq_none {species : List (Species α)} {last : ℤ} : o.otherLast species last = .ok none ↔
      ∃ p, entryFrom o.speciesBackward last = .ok p ∧ (p : ℤ) = (species.length : ℤ) - 1 := by
  unfold Reordered.otherLast
  rw [bind_eq_ok]
  constructor
  · rintro ⟨p, hp, hr⟩
    split at hr
    · next hpl => exact ⟨p, hp, hpl⟩
    · obtain ⟨before, -, hr⟩ := bind_eq_ok.1 hr
      obtain ⟨sp, -, hr⟩ := bind_eq_ok.1 hr
      obtain ⟨now, -, hr⟩ := bind_eq_ok.1 hr
      cases hr
  · rintro ⟨p, hp, hpl⟩
    refine ⟨p, hp, ?_⟩
    rw [if_pos hpl]
    rfl

/-- The last species is the same exactly if the last entry of the earlier map is its position. -/
lemma sameLast_iff (h : o.FoundFor m f) (hc : r.species.length = m.species.length) :
    o.otherLast r.species r.last = .ok none ↔ m.last = r.lastPlace := by
  have hm := h.arranges.speciesMaps
  rw [← hc] at hm
  have hb : o.speciesBackward.length = r.species.length := by simpa using hm.backward.length_eq
  have hl : f.length = r.species.length := by simpa using hm.forward.length_eq
  have hls : ∃ j, f.getLast? = some j ∧ (j : ℤ) = m.last := by
    have hmp := h.last
    rw [h.arranges.forward, List.getLast?_map, Option.map_eq_some_iff] at hmp
    exact hmp
  obtain ⟨j, hj, hjl⟩ := hls
  rw [List.getLast?_eq_getElem?, hl, hm.inverse] at hj
  have hps : 0 < r.species.length := hb ▸ (Nat.zero_le j).trans_lt (List.getElem?_eq_some_iff.1 hj).1
  simp only [otherLast_eq_none, entryFrom_eq_ok, hb]
  constructor
  · rintro ⟨p, ⟨k, hk, hp⟩, hpl⟩
    obtain rfl : p = r.species.length - 1 := by omega
    -- both positions carry the last entry of the map
    have hs := (hm.inverse _ _).2 hp
    rw [(hm.inverse _ _).2 hj] at hs
    rw [← hjl, Option.some.inj hs, hk, Request.lastPlace]
  · intro hpl
    exact ⟨r.species.length - 1, ⟨j, hjl.trans hpl, hj⟩, by omega⟩

lemma Reordered.FoundFor.last_eq (h : o.FoundFor r f) : r.last = r.lastPlace := by
  have hl := h.last
  rw [h.arranges.forward] at hl
  obtain ⟨k, -, hk⟩ := mem_map.1 (mem_of_getLast? hl)
  rw [Request.lastPlace, if_neg]
  rw [← hk]
  exact not_lt.2 (Int.natCast_nonneg k)

lemma maps_of_found (h : o.FoundFor m f) (hc : r.species.length = m.species.length)
    (hc' : r.reactions.length = m.reactions.length) (hl : m.last = r.lastPlace) : o.Maps r f where
  forward := h.arranges.forward
  species := hc ▸ h.arranges.speciesMaps
  reactions := hc' ▸ h.arranges.reactionMaps
  last := hl ▸ h.last

/-- The lists of a result are those of a mechanism of the same size exactly if it is the mechanism itself. -/
lemma arranges_iff (h : o.FoundFor m f) (hm : o.Maps r f) (hc : r.species.length = m.species.length)
    (hc' : r.reactions.length = m.reactions.length) :
    o.Arranges r.species r.reactions f ↔ m.species = r.species ∧ m.reactions = r.reactions := by
  rw [← permuted_inj hm.species hc.symm rfl, ← permuted_inj hm.reactions hc'.symm rfl,
    ← h.arranges.species, ← h.arranges.reactions]
  constructor
  · intro ha
    exact ⟨ha.species, ha.reactions⟩
  · rintro ⟨hs, hr⟩
    exact ⟨hm.forward, hm.species, hm.reactions, hs, hr⟩

end Places

section Taken
variable {o : Reordered α} {m r : Request α} {f : List ℕ}

lemma suits_iff (h : o.Arranges m.species m.reactions f) : o.suits r.species r.reactions = true ↔
      ((∀ s ∈ m.species, ∃ t ∈ r.species, s.resembles t = true) ∧ r.species.length = m.species.length) ∧
        (∀ x ∈ m.reactions, ∃ y ∈ r.reactions, x.resembles y = true) ∧ r.reactions.length = m.reactions.length := by
  simp only [Reordered.suits, Bool.and_eq_true, beq_iff_eq, all_eq_true, any_eq_true, h.fits.speciesCount,
    h.fits.reactionCount, and_assoc]
  rw [h.species, h.reactions]
  simp only [mem_permuted h.speciesMaps rfl, mem_permuted h.reactionMaps rfl]

/-- A result is used exactly if its mechanism is taken for the requested one. -/
lemma usable_iff (h : o.FoundFor m f) : o.Usable r.species r.reactions r.last ↔ m.TakenFor r := by
  rw [Reordered.Usable, suits_iff h.arranges]
  constructor
  · rintro ⟨⟨⟨hs, hc⟩, hr, hc'⟩, hl⟩
    exact ⟨hs, hc, hr, hc', (sameLast_iff h hc).1 hl⟩
  · intro ht
    refine ⟨⟨⟨ht.species, ht.speciesCount⟩, ht.reactions, ht.reactionCount⟩, ?_⟩
    exact (sameLast_iff h ht.speciesCount).2 ht.last

end Taken

/-! ## Runs -/

section Runs
variable {r : Request α} {d d' : Desk α} {o : Reordered α}

/-- A result is the kept one, if it can be used, or that of a search. -/
lemma run_cases (h : r.run d = (.ok o, d')) : d'.kept = some o ∧
    (r.force = false ∧ d.kept = some o ∧ o.Usable r.species r.reactions r.last ∨
      (r.force = false → ∀ old, d.kept = some old → ¬old.Usable r.species r.reactions r.last) ∧
        (∃ f, o.FoundFor r f) ∧ (r.effort.Thorough → Orderable r.effort r.species r.reactions r.last)) := by
  obtain ⟨hk, hol | ⟨hn, ⟨f, ha, hl⟩, ho⟩⟩ := (optimize_ends r.source r.effort r.force d (rfl : d.Keeps d.kept)).1 o d' h
  · exact ⟨hk, .inl hol⟩
  · exact ⟨hk, .inr ⟨hn, ⟨f, ha, hl⟩, ho⟩⟩

/-- A request that fails leaves what is kept. It could neither use that nor do a search. -/
lemma run_error {e : Fault} (h : r.run d = (.error e, d')) : d'.kept = d.kept ∧
    ¬(Provided r.source r.effort r.species r.reactions ∧ Orderable r.effort r.species r.reactions r.last) ∧
    (r.force = false → ∀ old, d.kept = some old → ¬old.Usable r.species r.reactions r.last) :=
  (optimize_ends r.source r.effort r.force d (rfl : d.Keeps d.kept)).2 e d' h

lemma Left.found {past : List (Request α)} {kept : Option (Reordered α)} (h : Left past kept)
    (hk : kept = some o) : ∃ m ∈ past, ∃ f, o.FoundFor m f := by
  induction h with
  | nothing => cases hk
  | @request past d _ r ih =>
    have ho : d.kept = some o → ∃ m ∈ r :: past, ∃ f, o.FoundFor m f := by
      intro hd
      obtain ⟨m, hm, hf⟩ := ih hd
      exact ⟨m, mem_cons_of_mem r hm, hf⟩
    rcases hr : r.run d with ⟨e | o', d'⟩
    · -- a request that fails leaves what it found
      rw [hr] at hk
      exact ho ((run_error hr).1.symm.trans hk)
    · rw [hr] at hk
      obtain ⟨hk', ⟨-, hs, -⟩ | ⟨-, ⟨f, hf⟩, -⟩⟩ := run_cases hr
      · exact ho (hs.trans (hk'.symm.trans hk))
      · obtain rfl : o' = o := Option.some.inj (hk'.symm.trans hk)
        exact ⟨r, mem_cons_self, f, hf⟩

end Runs

/-- After any requests, a result has maps that are orders of the requested mechanism and inverse to each other, with
the last species at the end. Its lists are in the order of the maps for the mechanism that it was found for: the
requested one, or an earlier one that is taken for it. For the requested mechanism they are so exactly if the two
are equal. There is a result if an earlier mechanism is taken for the requested one and that is allowed, or if the
requested one can be put into an order; where every search takes a step, a search has no result otherwise. -/
theorem request_arranges {past : List (Request α)} {d : Desk α} (hleft : Left past d.kept) (r : Request α) :
    (∀ o d', r.run d = (.ok o, d') → d'.kept = some o ∧ ∃ m f, o.FoundFor m f ∧ o.Maps r f ∧
      (m = r ∧ (r.effort.Thorough → Orderable r.effort r.species r.reactions r.last) ∨
        m ∈ past ∧ m.TakenFor r ∧ r.force = false ∧ d.kept = some o) ∧
      (o.Arranges r.species r.reactions f ↔ m.species = r.species ∧ m.reactions = r.reactions)) ∧
    (∀ old m f, r.force = false → d.kept = some old → old.FoundFor m f → m.TakenFor r → ∃ d', r.run d = (.ok old, d')) ∧
    (Provided r.source r.effort r.species r.reactions → Orderable r.effort r.species r.reactions r.last →
      ∃ o d', r.run d = (.ok o, d')) := by
  refine ⟨fun o d' hrun => ?_, fun old m f hforce hkept hfound htaken => ?_, fun hp horderable => ?_⟩
  · obtain ⟨hkept', ⟨hforce, hkept, husable⟩ | ⟨-, ⟨f, hfound⟩, horderable⟩⟩ := run_cases hrun
    · -- the sizes agree although the mechanisms may not, so the maps still fit
      obtain ⟨m, hm, f, hfound⟩ := hleft.found hkept
      have htaken := (usable_iff hfound).1 husable
      have hmaps := maps_of_found hfound htaken.speciesCount htaken.reactionCount htaken.last
      exact ⟨hkept', m, f, hfound, hmaps, .inr ⟨hm, htaken, hforce, hkept⟩,
        arranges_iff hfound hmaps htaken.speciesCount htaken.reactionCount⟩
    · have hmaps := maps_of_found hfound rfl rfl hfound.last_eq
      exact ⟨hkept', r, f, hfound, hmaps, .inl ⟨rfl, horderable⟩, arranges_iff hfound hmaps rfl rfl⟩
  · have husable := (usable_iff hfound).2 htaken
    rcases hrun : r.run d with ⟨e | o, d'⟩
    · exact absurd husable ((run_error hrun).2.2 hforce old hkept)
    · obtain ⟨-, ⟨-, hsame, -⟩ | ⟨hnone, -⟩⟩ := run_cases hrun
      · cases hkept.symm.trans hsame
        exact ⟨d', rfl⟩
      · exact absurd husable (hnone hforce old hkept)
  · rcases hrun : r.run d with ⟨e | o, d'⟩
    · exact absurd ⟨hp, horderable⟩ (run_error hrun).2.1
    · exact ⟨o, d', rfl⟩

/-! ## A mechanism in two orders -/

noncomputable section

def counting : Source where
  step s := s + 1
  value s := s

def conversion (left right : String) : Reaction String Exact :=
  .elementary false [left] [.count 1] [right] [.count 1] (.count 1) (.count 0) (.count 0)

def chain : Request Exact where
  source := counting
  effort := {}
  species := [.named "A", .named "B", .named "C"]
  reactions := [conversion "A" "B", conversion "B" "C"]
  last := 2
  force := false

def turnedChain : Request Exact := { chain with reactions := [conversion "B" "C", conversion "A" "B"] }

end

lemma counting_varies {n : ℕ} (hn : 2 ≤ n) : counting.Varies n := by
  intro s avoided
  by_cases h : (s + 1) % n = avoided
  · -- two numbers in a row have different remainders
    refine ⟨1, fun hnx => ?_⟩
    have hs : (s + 1) + 1 ≡ (s + 1) + 0 [MOD n] := hnx.trans h.symm
    have ho : 1 % n = 0 % n := hs.add_left_cancel'
    rw [Nat.mod_eq_of_lt (by omega), Nat.zero_mod] at ho
    exact one_ne_zero ho
  · exact ⟨0, h⟩

lemma exact_divides (size : ℕ) : Divides Exact size := by
  intro a d _ hd _
  have hne : (Exact.count d).toReal ≠ 0 := by simpa using hd
  exact ⟨_, Exact.div_ok hne⟩

lemma chain_provided : Provided chain.source chain.effort chain.species chain.reactions where
  tries := by decide
  reach := by decide
  rounds := by decide
  patience := by decide
  reactionsVary := counting_varies le_rfl
  speciesVary := counting_varies le_rfl
  divides := exact_divides _

lemma chain_orderable : Orderable chain.effort chain.species chain.reactions chain.last where
  nonneg := by decide
  last_lt := by decide
  listed := by
    simp [chain, equation, conversion, Reaction.elementary, Species.named]
  colliders := by
    intro h
    cases h
  twoReactions := ⟨0, 1, by decide, ⟨_, rfl, by simp [conversion, Reaction.elementary]⟩, _, rfl,
    by simp [conversion, Reaction.elementary]⟩
  twoSpecies := by
    refine ⟨0, 1, by decide, ⟨by decide, ?_⟩, by decide, ?_⟩
    · exact ⟨conversion "A" "B", mem_cons_self, "A", by simp [conversion, Reaction.elementary], rfl⟩
    · exact ⟨conversion "A" "B", mem_cons_self, "B", by simp [conversion, Reaction.elementary], rfl⟩

lemma covered_self {β : Type} {same : β → β → Bool} (h : ∀ x, same x x = true) (xs : List β) :
    Species.covered same xs xs = true := by
  rw [Species.covered, all_eq_true]
  exact fun x hx => any_eq_true.2 ⟨x, hx, h x⟩

lemma agree_self {β : Type} {same : β → β → Bool} (h : ∀ x, same x x = true) (xs : List β) :
    Species.agree same xs xs = true := by
  induction xs with
  | nil => rfl
  | cons x xs ih => rw [Species.agree, h, ih, Bool.and_self]

lemma species_resembles_self (s : Species Exact) : s.resembles s = true := by
  simp [Species.resembles, covered_self, agree_self]

lemma conversion_resembles_self (left right : String) :
    (conversion left right).resembles (conversion left right) = true := by
  simp [Reaction.resembles, conversion, Reaction.elementary, covered_self]

lemma chain_takenFor : chain.TakenFor turnedChain where
  species s hs := ⟨s, hs, species_resembles_self s⟩
  speciesCount := rfl
  reactions x hx := by
    rcases mem_pair.1 hx with rfl | rfl
    · exact ⟨_, mem_cons_of_mem _ mem_cons_self, conversion_resembles_self "A" "B"⟩
    · exact ⟨_, mem_cons_self, conversion_resembles_self "B" "C"⟩
  reactionCount := rfl
  last := rfl

/-- The result for one order of the conversions is given for the other one too, for which it is wrong. -/
theorem request_arranges_turned : ∃ o d, chain.run ⟨0, "", none⟩ = (.ok o, d) ∧
    (∃ d', turnedChain.run d = (.ok o, d')) ∧ ∀ f, ¬o.Arranges turnedChain.species turnedChain.reactions f := by
  obtain ⟨hresult, -, hfirst⟩ := request_arranges (d := ⟨0, "", none⟩) .nothing chain
  obtain ⟨o, d, hrun⟩ := hfirst chain_provided chain_orderable
  obtain ⟨hkept, m, f, hfound, -, ⟨rfl, -⟩ | ⟨hm, -⟩, -⟩ := hresult o d hrun
  · have hleft : Left [chain] d.kept := by
      have hafter := Left.request (d := ⟨0, "", none⟩) .nothing chain
      rwa [hrun] at hafter
    obtain ⟨-, hreuse, -⟩ := request_arranges hleft turnedChain
    refine ⟨o, d, hrun, hreuse o chain f rfl hkept hfound chain_takenFor, fun f' harranges => ?_⟩
    have hsame : permuted o.reactionsForward chain.reactions = permuted o.reactionsForward turnedChain.reactions :=
      hfound.arranges.reactions.symm.trans harranges.reactions
    have hlists : chain.reactions = turnedChain.reactions :=
      (permuted_inj hfound.arranges.reactionMaps rfl (w := turnedChain.reactions) rfl).1 hsame
    have hnames := congrArg (List.map Reaction.reactants) hlists
    simp [chain, turnedChain, conversion, Reaction.elementary] at hnames
  · cases hm

end Kinetics.Ordering
