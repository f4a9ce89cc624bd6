import Kinetics.Mechanism.Reaction
import Kinetics.Proofs.Exact
import Kinetics.Scalar
/-!
# Records compared with each other

A record is taken for another one if their single values agree and what stands in the lists of the first stands
somewhere in the lists of the second. So the comparison has a direction, and it sees neither the order of a list
nor how often something stands in it (`comparison_sees_entries`).
-/

open List

namespace Kinetics

open Species (covered agree)

/-! ## Equal numbers -/

open Float.Model in
lemma compare_symm {x y : UnpackedFloat} (h : x.compare y = some .eq) : y.compare x = some .eq := by
  rcases x with ⟨_ | _⟩ | _ | _ | ⟨_ | _, m, e, _⟩ <;> rcases y with ⟨_ | _⟩ | _ | _ | ⟨_ | _, n, f, _⟩ <;>
    simp_all [UnpackedFloat.compare, Ordering.then_eq_eq]

lemma Scalar.eq_symm {x y : Scalar} (h : Arithmetic.eq x y = true) : Arithmetic.eq y x = true := by
  have h : x.compareValue y = some .eq := beq_iff_eq.1 h
  refine (beq_iff_eq.2 ?_ : (y.compareValue x == some .eq) = true)
  cases x with
  | int m =>
    cases y with
    | int n => simp_all [compareValue]
    | float y => simpa [compareValue] using h
  | float x =>
    cases y with
    | int n =>
      obtain ⟨o, ho, hs⟩ := Option.map_eq_some_iff.1 h
      simpa [compareValue, ho] using hs
    | float y =>
      have hb (h : (x == y) = true) : (y == x) = true :=
        (beq_iff_eq.2 (compare_symm (beq_iff_eq.1 h)) : (y.toModel.unpack.compare x.toModel.unpack == some .eq) = true)
      simp only [compareValue] at h ⊢
      split_ifs at h ⊢ <;> simp_all

lemma agree_iff {β : Type} {same : β → β → Bool} {xs ys : List β} :
    agree same xs ys = true ↔ Forall₂ (same · ·) xs ys := by
  induction xs generalizing ys with
  | nil => cases ys <;> simp [agree]
  | cons x xs ih => cases ys <;> simp [agree, ih]

/-! ## Fields -/

variable {σ : Type} [DecidableEq σ]

/-- What a field or an entry of a list can be. -/
inductive Datum (σ : Type) where
  | missing
  | flag (b : Bool)
  | whole (n : ℤ)
  | number (x : Scalar)
  | reference (s : σ)
  | share (s : σ) (x : Scalar)
  | row (xs : List Scalar)

def Datum.same : Datum σ → Datum σ → Bool
  | .missing, .missing => true
  | .flag b, .flag c => b == c
  | .whole m, .whole n => m == n
  | .number x, .number y => Arithmetic.eq x y
  | .reference s, .reference t => s == t
  | .share s x, .share t y => s == t && Arithmetic.eq x y
  | .row xs, .row ys => agree Arithmetic.eq xs ys
  | _, _ => false

lemma Datum.same_symm {x y : Datum σ} (h : x.same y = true) : y.same x = true := by
  cases x <;> cases y <;> simp only [same, Bool.and_eq_true, beq_iff_eq, Bool.false_eq_true] at h ⊢
  · exact h.symm
  · exact h.symm
  · exact Scalar.eq_symm h
  · exact h.symm
  · exact ⟨h.1.symm, Scalar.eq_symm h.2⟩
  · exact agree_iff.2 ((agree_iff.1 h).flip.imp fun _ _ => Scalar.eq_symm)

/-- A field with one value, with values at fixed places or with a list of entries. -/
inductive RecordField (σ : Type) where
  | single (x : Datum σ)
  | array (xs : List (Datum σ))
  | list (xs : List (Datum σ))

namespace RecordField

def resembles : RecordField σ → RecordField σ → Bool
  | .single x, .single y => x.same y
  | .array xs, .array ys => agree Datum.same xs ys
  | .list xs, .list ys => covered Datum.same xs ys
  | .list xs, .single .missing => xs.isEmpty
  | _, _ => false

/-- Two fields agree, up to a relation of the lists of entries. -/
inductive Like (R : List (Datum σ) → List (Datum σ) → Prop) : RecordField σ → RecordField σ → Prop
  | single {x y : Datum σ} (h : x.same y = true) : Like R (.single x) (.single y)
  | array {xs ys : List (Datum σ)} (h : Forall₂ (·.same ·) xs ys) : Like R (.array xs) (.array ys)
  | list {xs ys : List (Datum σ)} (h : R xs ys) : Like R (.list xs) (.list ys)

/-- Every entry of the first list stands somewhere in the second. -/
def Held (xs ys : List (Datum σ)) : Prop := ∀ x ∈ xs, ∃ y ∈ ys, x.same y = true

/-- The second field holds what the first one holds; for an empty list it may be missing. -/
def Within (f g : RecordField σ) : Prop := Like Held f g ∨ f = .list [] ∧ g = .single .missing

lemma resembles_iff {f g : RecordField σ} : f.resembles g = true ↔ f.Within g := by
  constructor
  · intro h
    unfold resembles at h
    split at h
    · exact .inl (.single h)
    · exact .inl (.array (agree_iff.1 h))
    · exact .inl (.list (by simpa [Held, covered] using h))
    · exact .inr ⟨congrArg _ (isEmpty_iff.1 h), rfl⟩
    · cases h
  · rintro ((h | h | h) | ⟨rfl, rfl⟩)
    · exact h
    · exact agree_iff.2 h
    · simpa [Held, resembles, covered] using h
    · rfl

/-- Lists with the same entries, in whatever order and number. -/
def Shared (xs ys : List (Datum σ)) : Prop := Held xs ys ∧ Held ys xs

lemma within_both {f g : RecordField σ} : f.Within g ∧ g.Within f ↔ Like Shared f g := by
  constructor
  · rintro ⟨(h | h | h) | ⟨rfl, rfl⟩, hg⟩
    · exact .single h
    · exact .array h
    · obtain (h' | h' | h') | ⟨-, hn⟩ := hg
      · exact .list ⟨h, h'⟩
      · cases hn
    · obtain (h' | h' | h') | ⟨hn, -⟩ := hg
      cases hn
  · rintro (h | h | h)
    · exact ⟨.inl (.single h), .inl (.single (Datum.same_symm h))⟩
    · exact ⟨.inl (.array h), .inl (.array (h.flip.imp fun _ _ => Datum.same_symm))⟩
    · exact ⟨.inl (.list h.1), .inl (.list h.2)⟩

lemma shared_of_same {xs ys : List (Datum σ)} (h : Forall₂ (·.same ·) xs ys) : Shared xs ys := by
  have hh : ∀ {xs ys : List (Datum σ)}, Forall₂ (·.same ·) xs ys → Held xs ys := by
    intro xs ys h
    induction h with
    | nil => exact forall_mem_nil _
    | cons hx _ ih =>
      refine forall_mem_cons.2 ⟨⟨_, mem_cons_self, hx⟩, fun x hm => ?_⟩
      obtain ⟨y, hy, hs⟩ := ih x hm
      exact ⟨y, mem_cons_of_mem _ hy, hs⟩
  exact ⟨hh h, hh (h.flip.imp fun _ _ => Datum.same_symm)⟩

end RecordField

open RecordField

def Species.fields (s : Species Scalar) : List (RecordField String) := [.single (.reference s.name),
  .list (s.composition.map fun p => .share p.1 p.2), .single (.number s.weight), .array (s.high.toList.map .number),
  .array (s.low.toList.map .number), .list (s.range.map .number)]

def Reaction.fields (r : Reaction σ Scalar) : List (RecordField σ) :=
  let numbers := fun xs : List Scalar => RecordField.list (xs.map .number)
  [.single (.flag r.reversible), .list (r.reactants.map .reference), numbers r.reactantNu,
    .list (r.products.map .reference), numbers r.productNu, .single (.number r.A), .single (.number r.b),
    .single (.number r.E), numbers r.reverse, .single (.flag r.duplicate), .single (.flag r.thirdBody),
    .list (r.efficiencies.map fun p => .share p.1 p.2), .single (.flag r.falloff),
    .single (r.collider.elim .missing .reference), numbers r.low, numbers r.high, .single (.flag r.troe),
    numbers r.troeParameters, .single (.flag r.sri), numbers r.sriParameters, .single (.flag r.chebyshev),
    .single (.whole r.temperatureTerms), .single (.whole r.pressureTerms), numbers r.pressureLimits,
    numbers r.temperatureLimits, r.chebyshevCoefficients.elim (.single .missing) fun rows => .array (rows.map .row),
    .single (.flag r.plog), r.plogRates.elim (.single .missing) fun rows => .list (rows.map .row)]

lemma agree_map {β γ : Type} {f : β → γ} {same : γ → γ → Bool} (xs ys : List β) :
    agree same (xs.map f) (ys.map f) = agree (fun x y => same (f x) (f y)) xs ys := by
  induction xs generalizing ys with
  | nil => cases ys <;> rfl
  | cons x xs ih => cases ys <;> simp [agree, ih]

lemma covered_map {β γ : Type} {f : β → γ} {same : γ → γ → Bool} (xs ys : List β) :
    covered same (xs.map f) (ys.map f) = covered (fun x y => same (f x) (f y)) xs ys := by
  simp [covered, any_map, all_map, Function.comp_def]

lemma Species.resembles_eq (s t : Species Scalar) : s.resembles t = agree RecordField.resembles s.fields t.fields := by
  simp [Species.resembles, fields, agree, RecordField.resembles, Datum.same, agree_map, covered_map, Bool.and_assoc]

lemma Reaction.resembles_eq (r s : Reaction σ Scalar) :
    r.resembles s = agree RecordField.resembles r.fields s.fields := by
  have hc : (r.collider == s.collider) = RecordField.resembles (.single (r.collider.elim .missing .reference))
      (.single (s.collider.elim .missing .reference)) := by
    cases r.collider <;> cases s.collider <;> simp [RecordField.resembles, Datum.same]
  simp only [Reaction.resembles, hc, fields, agree, RecordField.resembles, Datum.same, covered_map, Bool.and_assoc]
  rcases r.chebyshevCoefficients with _ | xs <;> rcases s.chebyshevCoefficients with _ | ys <;>
    rcases r.plogRates with _ | us <;> rcases s.plogRates with _ | vs <;>
    simp [Datum.same, agree_map, covered_map]

/-- What the comparison says about the fields of two records, ahead and back. -/
structure Compared (f g : List (RecordField σ)) (ahead back : Bool) : Prop where
  /-- It holds in one direction just if the fields of the second record hold what those of the first hold. -/
  one : ahead = true ↔ Forall₂ Within f g
  /-- It holds in both directions just if corresponding lists have the same entries. -/
  both : ahead = true ∧ back = true ↔ Forall₂ (Like Shared) f g
  /-- It holds in both directions if all fields agree, entry by entry. -/
  alike : Forall₂ (Like (Forall₂ (·.same ·))) f g → ahead = true ∧ back = true

lemma compared (f g : List (RecordField σ)) :
    Compared f g (agree RecordField.resembles f g) (agree RecordField.resembles g f) := by
  have hw : ∀ f g : List (RecordField σ), agree RecordField.resembles f g = true ↔ Forall₂ Within f g := by
    intro f g
    simp only [agree_iff, resembles_iff]
  have hb : Forall₂ Within f g ∧ Forall₂ Within g f ↔ Forall₂ (Like Shared) f g := by
    constructor
    · rintro ⟨h, h'⟩
      induction h with
      | nil => exact .nil
      | cons hf _ ih =>
        cases h' with
        | cons hg h' => exact .cons (within_both.1 ⟨hf, hg⟩) (ih h')
    · exact fun h => ⟨h.imp fun _ _ hl => (within_both.2 hl).1, .flip (h.imp fun _ _ hl => (within_both.2 hl).2)⟩
  rw [← hw, ← hw] at hb
  refine ⟨hw f g, hb, fun h => hb.2 (h.imp fun f g hl => ?_)⟩
  obtain hl | hl | hl := hl
  · exact .single hl
  · exact .array hl
  · exact .list (shared_of_same hl)

/-- Reactions and species are compared by the entries of their lists alone, and in one direction only. -/
theorem comparison_sees_entries (r r' : Reaction σ Scalar) (s s' : Species Scalar) :
    Compared r.fields r'.fields (r.resembles r') (r'.resembles r) ∧
      Compared s.fields s'.fields (s.resembles s') (s'.resembles s) := by
  rw [Reaction.resembles_eq, Reaction.resembles_eq, Species.resembles_eq, Species.resembles_eq]
  exact ⟨compared _ _, compared _ _⟩

/-- Coefficients may change places, and one of two reactants may be missing. -/
example : let r : Reaction String Scalar :=
      .elementary false ["A", "B"] [.int 1, .int 2] ["C"] [.int 1] (.int 1) (.int 0) (.int 0)
    let turned := { r with reactantNu := [.int 2, .int 1] }
    let alone := { r with reactants := ["A"] }
    r.resembles turned && turned.resembles r && alone.resembles r && !r.resembles alone := by decide +kernel

end Kinetics
