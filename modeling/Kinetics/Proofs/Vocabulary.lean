import Kinetics.Proofs.Meaning
import Kinetics.Proofs.Outcome
/-!
# Names that emitted code uses

A `Grammar` says which names emitted code may use and whether anything may be missing in it. Code
that `Fits` a grammar computes the same from memories that agree on its names, and it leaves all
other locations alone.
-/

open List

namespace Kinetics.Code

/-! ## Grammars -/

/-- What emitted code may hold. -/
structure Grammar where
  /-- The variables, arrays and functions. -/
  names : String → Prop
  /-- The arrays that code may read, but not write. -/
  sources : String → Prop
  /-- Whether operands and closing marks may be missing, and texts may be free. -/
  flawed : Prop
  /-- Whether there may be locations other than variables and elements of arrays. -/
  foreign : Prop
  /-- Whether there may be calls. -/
  calls : Prop
  /-- Whether signs may stand without an operand before them or side by side, and choices without cases. -/
  loose : Prop
  /-- Whether copies of any locations may be asked for and given up. -/
  shares : Prop

def Grammar.Declares (G : Grammar) (name : String) : Prop := G.names name ∨ G.flawed ∧ G.calls

def Expr.firm {α : Type} : Expr α → Prop
  | .element _ _ | .group _ => True
  | _ => False

section Fits
variable {α : Type} (G : Grammar)

def Expr.Fits : Expr α → Prop
  | .number _ _ | .constant _ => True
  | .element name _ => G.names name ∨ G.sources name
  | .tenPower e | .group e | .padded _ _ e => e.Fits
  | .negate _ e => (G.loose ∨ e.firm) ∧ e.Fits
  | .apply f _ e => f ∈ ["exp", "log", "log10"] ∧ e.Fits
  | .apply2 f a b => f ∈ ["pow", "fmax"] ∧ a.Fits ∧ b.Fits
  | .binary op gap a b => (a.Fits ∨ G.loose ∧ a = .hole ∧ (op = .plus ∨ op = .minus)) ∧
      (G.loose ∨ op ≠ .minus ∨ gap = {}) ∧ b.Fits
  | .opened e => G.flawed ∧ e.Fits
  | .beside a b => G.flawed ∧ a.Fits ∧ b.Fits
  | .hole => G.flawed
  | .pointee name _ | .firstColumn name _ => G.foreign ∧ G.names name
  | .address e => G.flawed ∧ G.foreign ∧ e.Fits
  | .named _ _ | .slot _ => G.flawed ∧ G.foreign

/-- An expression stands for a location that may be assigned. -/
def Expr.Settable : Expr α → Prop
  | .element name _ => G.names name
  | .pointee name _ | .firstColumn name _ => G.foreign ∧ G.names name
  | .slot _ => G.flawed ∧ G.foreign
  | _ => False

def Condition.Fits : Condition α → Prop
  | .atMost quantity _ _ | .above quantity _ _ | .between quantity _ _ _ => G.names quantity ∨ G.sources quantity

def Step.Fits : Step α → Prop
  | .assign _ target _ value => target.Settable G ∧ value.Fits G
  | .declare _ type names _ value ending =>
    (type ∈ ["double", "double*", "adouble", "adouble*"] ∧ names ≠ [] ∧ ending ≠ .joined ∨ G.flawed) ∧
      (∀ name ∈ names, G.Declares name) ∧ ∀ e ∈ value, e.Fits G
  | .call _ f _ arguments => G.calls ∧ G.names f ∧ arguments ≠ [] ∧
      ∀ e ∈ arguments, e.Fits G ∨ ∃ location, e = .address location ∧ location.Fits G
  | .comment _ _ text _ => '\n' ∉ text.toList ∨ G.flawed
  | .blank => True
  | .line _ => G.flawed
  | .give _ _ => False

def Item.Fits : Item α → Prop
  | .step s => s.Fits G
  | .split _ condition below above =>
    condition.Fits G ∧ (∀ s ∈ below, s.Fits G) ∧ ∀ s ∈ above, s.Fits G
  | .choice _ arms closed => (closed = true ∨ G.loose ∧ arms = [] ∨ G.flawed) ∧
      ∀ arm ∈ arms, arm.1.Fits G ∧ ∀ s ∈ arm.2, s.Fits G
  | .load wanted => ∀ w ∈ wanted, (G.shares ∨ G.sources w.1.1) ∧ w.1.2 ≠ none
  | .release _ => G.shares
  | .consult _ => True

end Fits

/-- The grammar has only the given names, and neither other locations nor calls. -/
structure Grammar.Only (G : Grammar) (names : List String) : Prop where
  named : ∀ name, G.names name ∨ G.sources name → name ∈ names
  plain : ¬G.foreign
  silent : ¬G.calls

/-- The grammar of code that reads one array without writing it, and asks for copies of its elements only. -/
def readingGrammar (array : String) : Grammar := ⟨(· ≠ array), (· = array), True, False, False, True, False⟩

/-- The grammar of code without flaws that leaves the matrix alone. -/
def calmGrammar (calls : Prop) : Grammar :=
  ⟨fun name => name ≠ "jac" ∧ name ≠ "J_nplusjplus", fun _ => False, False, False, calls, False, False⟩

@[simp] lemma calmGrammar_names (calls : Prop) (name : String) :
    (calmGrammar calls).names name ↔ name ≠ "jac" ∧ name ≠ "J_nplusjplus" := Iff.rfl

@[simp] lemma calmGrammar_calls (calls : Prop) : (calmGrammar calls).calls ↔ calls := Iff.rfl

@[simp] lemma calmGrammar_declares (calls : Prop) (name : String) :
    (calmGrammar calls).Declares name ↔ name ≠ "jac" ∧ name ≠ "J_nplusjplus" := or_iff_left And.left

def wholeGrammar : Grammar := ⟨fun _ => True, fun _ => False, False, True, True, False, False⟩

@[simp] lemma wholeGrammar_names (name : String) : wholeGrammar.names name := trivial

/-! ## Parts of code -/

section Parts
variable {α : Type} {G : Grammar}

def Expr.places : Expr α → List Place
  | .element array index => [.cell array index]
  | .pointee pointer _ => [.cell ("(*" ++ pointer ++ ")") none]
  | .firstColumn matrix row => [.cell matrix (some row)]
  | .slot label => [.slot label]
  | .address e | .negate _ e | .apply _ _ e | .tenPower e | .group e | .opened e | .padded _ _ e => e.places
  | .binary _ _ a b | .apply2 _ a b | .beside a b => a.places ++ b.places
  | .number _ _ | .constant _ | .named _ _ | .hole => []

/-- The statements of an item, in the order of its text. -/
def Item.steps : Item α → List (Step α)
  | .step s => [s]
  | .split _ _ below above => below ++ above
  | .choice _ arms _ => arms.flatMap (·.2)
  | .load _ | .release _ | .consult _ => []

def Item.conditions : Item α → List (Condition α)
  | .split _ condition _ _ => [condition]
  | .choice _ arms _ => arms.map (·.1)
  | .step _ | .load _ | .release _ | .consult _ => []

lemma Expr.Fits.places {e : Expr α} (h : e.Fits G) (hp : ¬G.foreign) :
    ∀ p ∈ e.places, ∃ a, (G.names a ∨ G.sources a) ∧ ∃ i, p = .cell a i := by
  induction e with
  | number | constant | hole | named => exact forall_mem_nil _
  | element name i => exact forall_mem_singleton.2 ⟨name, h, i, rfl⟩
  | pointee | firstColumn => exact absurd h.1 hp
  | slot => exact absurd h.2 hp
  | address => exact absurd h.2.1 hp
  | tenPower e ih | group e ih | padded _ _ e ih => exact ih h
  | negate _ e ih | apply _ _ e ih | opened e ih => exact ih h.2
  | binary _ _ a b iha ihb =>
    refine forall_mem_append.2 ⟨h.1.elim iha ?_, ihb h.2.2⟩
    rintro ⟨-, rfl, -⟩
    exact forall_mem_nil _
  | apply2 _ a b iha ihb | beside a b iha ihb => exact forall_mem_append.2 ⟨iha h.2.1, ihb h.2.2⟩

lemma Item.Fits.steps {i : Item α} (h : i.Fits G) : ∀ s ∈ i.steps, s.Fits G := by
  cases i with
  | step s => exact forall_mem_singleton.2 h
  | split => exact forall_mem_append.2 h.2
  | choice => exact forall_mem_flatMap.2 fun arm harm => (h.2 arm harm).2
  | load | release | consult => exact forall_mem_nil _

lemma Item.Fits.conditions {i : Item α} (h : i.Fits G) : ∀ c ∈ i.conditions, c.Fits G := by
  cases i with
  | split => exact forall_mem_singleton.2 h.1
  | choice => exact forall_mem_map.2 fun arm harm => (h.2 arm harm).1
  | step | load | release | consult => exact forall_mem_nil _

end Parts

noncomputable section

/-! ## Reading -/

/-- The memories agree on all variables and arrays with the names. -/
def Agree (names : List String) (σ τ : Memory) : Prop :=
  ∀ array ∈ names, ∀ index, σ (.cell array index) = τ (.cell array index)

variable {G : Grammar} {names : List String} {σ τ σ' : Memory}

lemma Agree.symm (h : Agree names σ τ) : Agree names τ σ := fun a ha i => (h a ha i).symm

lemma Agree.trans {υ : Memory} (h : Agree names σ τ) (h' : Agree names τ υ) : Agree names σ υ :=
  fun a ha i => (h a ha i).trans (h' a ha i)

lemma Agree.update (h : Agree names σ τ) (p : Place) (v : ℝ) :
    Agree names (Function.update σ p v) (Function.update τ p v) := by
  intro a ha i
  by_cases hp : Place.cell a i = p
  · rw [← hp, Function.update_self, Function.update_self]
  · rw [Function.update_of_ne hp, Function.update_of_ne hp, h a ha i]

lemma agree_update {p : Place} (hp : ∀ a ∈ names, ∀ i, Place.cell a i ≠ p) (v : ℝ) :
    Agree names (Function.update σ p v) σ :=
  fun a ha i => Function.update_of_ne (hp a ha i) _ _

/-- What is read depends on the locations in the expression only. -/
lemma read_congr {e : Expr Exact} (h : ∀ p ∈ e.places, σ p = τ p) (s : Scan) : e.read σ s = e.read τ s := by
  induction e generalizing s with
  | number | constant | hole | named | address | opened => rfl
  | element | pointee | firstColumn | slot => simp only [Expr.read, h _ mem_cons_self]
  | negate _ e ih => simp only [Expr.read, funext (ih h)]
  | apply _ _ e ih | tenPower e ih | group e ih => simp only [Expr.read, ih h]
  | padded _ _ e ih => exact ih h s
  | binary _ _ a b iha ihb | apply2 _ a b iha ihb =>
    rw [Expr.places, forall_mem_append] at h
    simp only [Expr.read, iha h.1, ihb h.2]
  | beside a b iha ihb =>
    rw [Expr.places, forall_mem_append] at h
    simp only [Expr.read, iha h.1, funext (ihb h.2)]

lemma value_congr (hG : G.Only names) (h : Agree names σ τ) {e : Expr Exact} (he : e.Fits G) :
    e.value σ = e.value τ := by
  have hpl : ∀ p ∈ e.places, σ p = τ p := by
    intro p hp
    obtain ⟨a, ha, i, rfl⟩ := he.places hG.plain p hp
    exact h a (hG.named a ha) i
  rw [Expr.value, Expr.value, read_congr hpl]

/-! ## Running -/

section Relation
variable {R : Memory → Memory → Prop} {target target' value value' : Expr Exact}

/-- Two assignments to one location take memories to related ones if the same value is assigned. -/
lemma rel_run_assign (indent : ℕ) (form : Form) (hl : target'.location = target.location)
    (hv : value'.value τ = value.value σ) (hu : ∀ p v, target.location = some p →
      R (Function.update σ p (form.update (σ p) v)) (Function.update τ p (form.update (τ p) v))) :
    Option.Rel R ((Step.assign indent target form value).run σ) ((Step.assign indent target' form value').run τ) := by
  simp only [Step.run, hl, hv]
  cases hp : target.location with
  | none => exact .none
  | some p =>
    cases value.value σ with
    | none => exact .none
    | some v => exact .some (hu p v hp)

lemma rel_run_declare (indent : ℕ) (type : String) {declared : List String} (size : Option ℤ) (ending : Ending)
    (hv : value'.value τ = value.value σ) (hR : R σ τ) (hu : ∀ name ∈ declared, ∀ σ τ v, R σ τ →
      R (σ.setVar name v) (τ.setVar name v)) :
    Option.Rel R ((Step.declare indent type declared size (some value) ending).run σ)
      ((Step.declare indent type declared size (some value') ending).run τ) := by
  simp only [Step.run, hv]
  cases value.value σ with
  | none => exact .none
  | some v =>
    refine .some ?_
    clear hv
    -- the names are declared one after the other
    induction declared generalizing σ τ with
    | nil => exact hR
    | cons name rest ih =>
      rw [forall_mem_cons] at hu
      exact ih (hu.1 σ τ v hR) hu.2

end Relation

/-- The item with its statements translated. -/
def Item.translate (f : Step Exact → Step Exact) : Item Exact → Item Exact
  | .step s => .step (f s)
  | .split indent condition below above => .split indent condition (below.map f) (above.map f)
  | .choice indent arms closed => .choice indent (arms.map fun arm => (arm.1, arm.2.map f)) closed
  | .load wanted => .load wanted
  | .release locations => .release locations
  | .consult locations => .consult locations

lemma Item.translate_id (i : Item Exact) : i.translate id = i := by
  cases i <;> simp [Item.translate]

/-- Statements with a property and their translations take related memories to related ones, and conditions with a
property do not tell them apart. -/
structure Simulates (R : Memory → Memory → Prop) (f : Step Exact → Step Exact) (S : Step Exact → Prop)
    (C : Condition Exact → Prop) : Prop where
  step : ∀ s, S s → ∀ σ τ, R σ τ → Option.Rel R (s.run σ) ((f s).run τ)
  condition : ∀ c, C c → ∀ σ τ, R σ τ → c.holds τ = c.holds σ

namespace Simulates

variable {R : Memory → Memory → Prop} {f : Step Exact → Step Exact} {S : Step Exact → Prop}
  {C : Condition Exact → Prop} (h : Simulates R f S C)

include h

lemma steps {steps : List (Step Exact)} (hs : ∀ s ∈ steps, S s) (hR : R σ τ) :
    Option.Rel R (runSteps σ steps) (runSteps τ (steps.map f)) := by
  induction steps generalizing σ τ with
  | nil => exact .some hR
  | cons s rest ih =>
    rw [forall_mem_cons] at hs
    exact rel_bind (h.step s hs.1 σ τ hR) fun σ₁ τ₁ h₁ => ih hs.2 h₁

lemma arms {arms : List (Condition Exact × List (Step Exact))} (hs : ∀ s ∈ arms.flatMap (·.2), S s)
    (hc : ∀ c ∈ arms.map (·.1), C c) (hR : R σ τ) :
    Option.Rel R (runArms σ arms) (runArms τ (arms.map fun arm => (arm.1, arm.2.map f))) := by
  induction arms with
  | nil => exact .some hR
  | cons arm rest ih =>
    rw [flatMap_cons, forall_mem_append] at hs
    rw [map_cons, forall_mem_cons] at hc
    rw [map_cons, runArms, runArms, h.condition _ hc.1 σ τ hR]
    cases arm.1.holds σ with
    | true => exact h.steps hs.1 hR
    | false => exact ih hs.2 hc.2

lemma item {i : Item Exact} (hs : ∀ s ∈ i.steps, S s) (hc : ∀ c ∈ i.conditions, C c) (hR : R σ τ) :
    Option.Rel R (i.run σ) ((i.translate f).run τ) := by
  cases i with
  | step s => exact h.step s (hs s mem_cons_self) σ τ hR
  | split _ c below above =>
    rw [Item.steps, forall_mem_append] at hs
    rw [Item.translate, Item.run, Item.run, h.condition c (hc c mem_cons_self) σ τ hR]
    cases c.holds σ with
    | true => exact h.steps hs.1 hR
    | false => exact h.steps hs.2 hR
  | choice _ arms closed =>
    cases closed with
    | true => exact h.arms hs hc hR
    | false => exact .none
  | load | release | consult => exact .some hR

lemma items {items : List (Item Exact)} (hs : ∀ i ∈ items, ∀ s ∈ i.steps, S s)
    (hc : ∀ i ∈ items, ∀ c ∈ i.conditions, C c) (hR : R σ τ) :
    Option.Rel R (runItems σ items) (runItems τ (items.map (Item.translate f))) := by
  induction items generalizing σ τ with
  | nil => exact .some hR
  | cons i rest ih =>
    rw [forall_mem_cons] at hs hc
    exact rel_bind (h.item hs.1 hc.1 hR) fun σ₁ τ₁ h₁ => ih hs.2 hc.2 h₁

end Simulates

lemma location_fits (hpl : ¬G.foreign) {target : Expr Exact} {p : Place} (ht : target.Settable G)
    (hp : target.location = some p) : ∃ a, G.names a ∧ ∃ i, p = .cell a i := by
  cases target with
  | element array index => exact ⟨array, ht, index, (Option.some.inj hp).symm⟩
  | pointee | firstColumn => exact absurd ht.1 hpl
  | slot => exact absurd ht.2 hpl
  | _ => cases hp

lemma simulates_agree (hG : G.Only names) : Simulates (Agree names) id (Step.Fits G) (Condition.Fits G) where
  step s hs σ τ h := by
    cases s with
    | assign indent target form value =>
      refine rel_run_assign indent form rfl (value_congr hG h hs.2).symm fun p v hp => ?_
      obtain ⟨a, ha, i, rfl⟩ := location_fits hG.plain hs.1 hp
      rw [h a (hG.named a (.inl ha)) i]
      exact h.update _ _
    | declare indent type declared size value ending =>
      cases value with
      | none => exact .some h
      | some e =>
        exact rel_run_declare indent type size ending (value_congr hG h (hs.2.2 e rfl)).symm h
          fun _ _ _ _ v h => h.update _ v
    | comment | blank | line => exact .some h
    | call => exact absurd hs.1 hG.silent
    | give => exact hs.elim
  condition c hc σ τ h := by
    cases c <;> simp only [Condition.holds, h _ (hG.named _ hc)]

/-- Memories that agree on the names of the code still agree after it. -/
lemma runItems_congr (hG : G.Only names) (h : Agree names σ τ) {items : List (Item Exact)}
    (hi : ∀ i ∈ items, i.Fits G) : Option.Rel (Agree names) (runItems σ items) (runItems τ items) := by
  have hr := (simulates_agree hG).items (fun i hmem => (hi i hmem).steps) (fun i hmem => (hi i hmem).conditions) h
  rwa [funext Item.translate_id, map_id'] at hr

/-! ## Writing -/

def Step.writes : Step Exact → List Place
  | .assign _ target _ _ => target.location.toList
  | .declare _ _ declared _ (some _) _ => declared.map (.cell · none)
  | .declare _ _ _ _ none _ | .comment _ _ _ _ | .blank | .line _ | .call _ _ _ _ | .give _ _ => []

def Item.writes : Item Exact → List Place
  | .step s => s.writes
  | .split _ _ below above => (below ++ above).flatMap Step.writes
  | .choice _ arms _ => arms.flatMap fun arm => arm.2.flatMap Step.writes
  | .load _ | .release _ | .consult _ => []

lemma Item.writes_eq (i : Item Exact) : i.writes = i.steps.flatMap Step.writes := by
  cases i <;> simp [Item.writes, Item.steps, flatMap_assoc]

lemma simulates_frame (p : Place) (x : ℝ) : Simulates (fun σ τ => σ = τ ∧ τ p = x) id (p ∉ ·.writes) fun _ => True where
  step s hp σ τ h := by
    obtain ⟨rfl, hx⟩ := h
    cases s with
    | assign indent target form value =>
      refine rel_run_assign indent form rfl rfl fun q v hq => ⟨rfl, ?_⟩
      have hne : p ≠ q := fun h => hp (by simp [Step.writes, hq, h])
      rw [Function.update_of_ne hne, hx]
    | declare indent type declared size value ending =>
      cases value with
      | none => exact .some ⟨rfl, hx⟩
      | some e =>
        refine rel_run_declare indent type size ending rfl ⟨rfl, hx⟩ fun name hn σ τ v h => ⟨by rw [h.1], ?_⟩
        have hne : p ≠ .cell name none := fun h => hp (h ▸ mem_map_of_mem hn)
        rw [Memory.setVar, Function.update_of_ne hne, h.2]
    | comment | blank | line => exact .some ⟨rfl, hx⟩
    | call | give => exact .none
  condition _ _ σ τ h := by rw [h.1]

lemma Item.run_frame {i : Item Exact} (hrun : i.run σ = some τ) {p : Place} (hp : p ∉ i.writes) : τ p = σ p := by
  rw [Item.writes_eq, mem_flatMap] at hp
  push Not at hp
  obtain ⟨τ', -, rfl, hk⟩ := exists_of_rel ((simulates_frame p (σ p)).item hp (fun _ _ => trivial) ⟨rfl, rfl⟩) hrun
  exact hk

lemma runItems_frame {items : List (Item Exact)} (hrun : runItems σ items = some τ) {p : Place}
    (hp : ∀ i ∈ items, p ∉ i.writes) : τ p = σ p := by
  simp only [Item.writes_eq, mem_flatMap] at hp
  push Not at hp
  obtain ⟨τ', -, rfl, hk⟩ :=
    exists_of_rel ((simulates_frame p (σ p)).items hp (fun _ _ _ _ => trivial) ⟨rfl, rfl⟩) hrun
  exact hk

lemma Step.Fits.writes (hpl : ¬G.foreign) (hd : ¬(G.flawed ∧ G.calls)) {s : Step Exact} (hs : s.Fits G)
    {p : Place} (hp : p ∈ s.writes) : ∃ a, G.names a ∧ ∃ i, p = .cell a i := by
  cases s with
  | assign => exact location_fits hpl hs.1 (Option.mem_toList.1 hp)
  | declare _ _ _ _ value =>
    cases value with
    | none => cases hp
    | some e =>
      obtain ⟨name, hn, rfl⟩ := mem_map.1 hp
      exact ⟨name, (hs.2.1 name hn).resolve_right hd, none, rfl⟩
  | _ => cases hp

lemma Item.Fits.writes (hpl : ¬G.foreign) (hd : ¬(G.flawed ∧ G.calls)) {i : Item Exact} (hi : i.Fits G)
    {p : Place} (hp : p ∈ i.writes) : ∃ a, G.names a ∧ ∃ k, p = .cell a k := by
  rw [Item.writes_eq, mem_flatMap] at hp
  obtain ⟨s, hs, hp⟩ := hp
  exact (hi.steps s hs).writes hpl hd hp

end

end Kinetics.Code
