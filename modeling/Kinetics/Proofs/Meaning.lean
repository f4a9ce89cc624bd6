import Kinetics.Code.Step
import Kinetics.Proofs.Exact
/-!
# What emitted code means

An expression means what a compiler finds in its text: operators from left to
right, products before sums, and a sign before both. `Expr.read` walks through a
tree in the order in which `Expr.render` writes it and keeps what a reader of the
text knows at each point. So the meaning is that of the text and not of the shape
of the tree: an operand that is missing, a parenthesis that stays open or two
minus signs that touch leave an expression without a value, and a sum used as a
factor without parentheses counts as the text says.

Each printed number stands for the number it was printed from. Statements change
a memory, which gives every location a real number.
-/

namespace Kinetics.Code

noncomputable section

/-! ## Expressions -/

/-- A location: a variable, an array element, or a slot of shared memory. -/
inductive Place where
  | cell (array : String) (index : Option Int)
  | slot (label : String)
  deriving DecidableEq

abbrev Memory := Place → ℝ

abbrev Memory.var (σ : Memory) (name : String) : ℝ := σ (.cell name none)

abbrev Memory.row (σ : Memory) (array : String) (k : ℕ) : ℝ := σ (.cell array (some (k : ℤ)))

noncomputable abbrev Memory.setVar (σ : Memory) (name : String) (v : ℝ) : Memory :=
  Function.update σ (.cell name none) v

noncomputable abbrev Memory.setRow (σ : Memory) (array : String) (k : ℤ) (v : ℝ) : Memory :=
  Function.update σ (.cell array (some k)) v

/-- How far an expression has been read. -/
inductive Scan where
  /-- An operand is due: the sum of the finished terms, the factors of the present
  term with its sign, and whether the operand divides. -/
  | want (before scale : ℝ) (divides : Bool)
  /-- An operand was the last: the sum of the finished terms, and the present term. -/
  | got (before term : ℝ)

namespace Scan

def start : Scan := want 0 1 false

def operand : Scan → ℝ → Option Scan
  | want b s divides, v => some (got b (if divides then s / v else s * v))
  | got _ _, _ => none

/-- Takes an operator. Where an operand is due, it can only be a sign. -/
def operator : Operator → Scan → Option Scan
  | .plus, got b t => some (want (b + t) 1 false)
  | .minus, got b t => some (want (b + t) (-1) false)
  | .times, got b t => some (want b t false)
  | .over, got b t => some (want b t true)
  | .plus, want b s divides => some (want b s divides)
  | .minus, want b s divides => some (want b (-s) divides)
  | .times, want _ _ _ => none
  | .over, want _ _ _ => none

def finish : Scan → Option ℝ
  | got b t => some (b + t)
  | want _ _ _ => none

end Scan

/-- The functions of one argument that emitted code calls. -/
def function1 : String → Option (ℝ → ℝ)
  | "exp" => some Real.exp
  | "log" => some Real.log
  | "log10" => some (Real.logb (10 : ℕ))
  | _ => none

/-- The functions of two arguments that emitted code calls. -/
def function2 : String → Option (ℝ → ℝ → ℝ)
  | "pow" => some (· ^ ·)
  | "fmax" => some max
  | _ => none

/-- Whether nothing stands between an operator and what follows it. -/
def Gap.isTight (g : Gap) : Bool := g.after == 0 && g.breakAfter == .none

namespace Expr

def startsSigned : Expr Exact → Bool
  | .number _ x => Arithmetic.isNegative x
  | .negate _ _ | .hole => true
  | .binary _ _ a _ | .beside a _ => a.startsSigned
  | .padded before _ e => before == 0 && e.startsSigned
  | _ => false

def read (σ : Memory) : Expr Exact → Scan → Option Scan
  | .number _ x, s => s.operand x.toReal
  | .constant d, s => s.operand d.toReal
  | .element array index, s => s.operand (σ (.cell array index))
  | .pointee pointer _, s => s.operand (σ (.cell ("(*" ++ pointer ++ ")") none))
  | .firstColumn matrix row, s => s.operand (σ (.cell matrix (some row)))
  | .slot label, s => s.operand (σ (.slot label))
  | .negate after e, s =>
    if after == 0 && e.startsSigned then none else (s.operator .minus).bind (e.read σ)
  | .binary op gap a b, s => do
    let s ← a.read σ s
    if op == .minus && gap.isTight && b.startsSigned then none
    else
      let s ← s.operator op
      b.read σ s
  | .apply f _ e, s => do
    let f ← function1 f
    let v ← (e.read σ .start).bind Scan.finish
    s.operand (f v)
  | .apply2 f a b, s => do
    let f ← function2 f
    let v ← (a.read σ .start).bind Scan.finish
    let w ← (b.read σ .start).bind Scan.finish
    s.operand (f v w)
  | .tenPower e, s => do
    let v ← (e.read σ .start).bind Scan.finish
    s.operand (((10 : ℕ) : ℝ) ^ v)
  | .group e, s => do
    let v ← (e.read σ .start).bind Scan.finish
    s.operand v
  | .padded _ _ e, s => e.read σ s
  | .beside a b, s => (a.read σ s).bind (b.read σ)
  | .hole, s => some s
  | .named _ _, _ | .address _, _ | .opened _, _ => none

def value (σ : Memory) (e : Expr Exact) : Option ℝ := (e.read σ .start).bind Scan.finish

/-- The location that an expression stands for on the left of an assignment. -/
def location : Expr Exact → Option Place
  | .element array index => some (.cell array index)
  | .pointee pointer _ => some (.cell ("(*" ++ pointer ++ ")") none)
  | .firstColumn matrix row => some (.cell matrix (some row))
  | .slot label => some (.slot label)
  | _ => none

end Expr

/-! ## Statements -/

/-- The content of a target after an assignment, from its old content. -/
def Form.update : Form → ℝ → ℝ → ℝ
  | .set, _, v | .setTight, _, v => v
  | .add, x, v | .accumulate, x, v => x + v
  | .subtract, x, v => x - v
  | .multiply, x, v => x * v

/-- Runs a statement. Calls and results are left to the surrounding program. -/
def Step.run (σ : Memory) : Step Exact → Option Memory
  | .assign _ target form value => do
    let p ← target.location
    let v ← value.value σ
    return Function.update σ p (form.update (σ p) v)
  | .declare _ _ names _ (some value) _ => do
    let v ← value.value σ
    return names.foldl (fun σ name => Function.update σ (.cell name none) v) σ
  | .declare _ _ _ _ none _ | .comment _ _ _ _ | .blank | .line _ => some σ
  | .call _ _ _ _ | .give _ _ => none

def runSteps (σ : Memory) : List (Step Exact) → Option Memory
  | [] => some σ
  | s :: rest => (s.run σ).bind fun τ => runSteps τ rest

open Classical in
def Condition.holds (σ : Memory) : Condition Exact → Bool
  | .atMost quantity _ bound => decide (σ (.cell quantity none) ≤ bound.toReal)
  | .above quantity _ bound => decide (bound.toReal < σ (.cell quantity none))
  | .between quantity _ lower upper =>
    decide (lower.toReal < σ (.cell quantity none) ∧ σ (.cell quantity none) ≤ upper.toReal)

def runArms (σ : Memory) : List (Condition Exact × List (Step Exact)) → Option Memory
  | [] => some σ
  | (condition, steps) :: rest => if condition.holds σ then runSteps σ steps else runArms σ rest

/-- Runs an item. A choice without its last brace is no statement. -/
def Item.run (σ : Memory) : Item Exact → Option Memory
  | .step s => s.run σ
  | .split _ condition below above =>
    if condition.holds σ then runSteps σ below else runSteps σ above
  | .choice _ arms closed => if closed then runArms σ arms else none
  | .load _ | .release _ | .consult _ => some σ

def runItems (σ : Memory) : List (Item Exact) → Option Memory
  | [] => some σ
  | i :: rest => (i.run σ).bind fun τ => runItems τ rest

@[simp] lemma runSteps_append (σ : Memory) (xs ys : List (Step Exact)) :
    runSteps σ (xs ++ ys) = (runSteps σ xs).bind fun τ => runSteps τ ys := by
  induction xs generalizing σ with
  | nil => rfl
  | cons x xs ih => simp only [List.cons_append, runSteps, Option.bind_assoc, ih]

@[simp] lemma runItems_append (σ : Memory) (xs ys : List (Item Exact)) :
    runItems σ (xs ++ ys) = (runItems σ xs).bind fun τ => runItems τ ys := by
  induction xs generalizing σ with
  | nil => rfl
  | cons x xs ih => simp only [List.cons_append, runItems, Option.bind_assoc, ih]

@[simp] lemma runItems_steps (σ : Memory) (steps : List (Step Exact)) :
    runItems σ (steps.map .step) = runSteps σ steps := by
  induction steps generalizing σ with
  | nil => rfl
  | cons s rest ih => simp only [List.map_cons, runItems, runSteps, Item.run, ih]

/-! ## Reading by parts

A factor can stand wherever an operand is due, a term wherever no division is
open. A sum has a value only on its own or in parentheses. -/

section Parts
variable {σ : Memory} {a b e : Expr Exact} {x y v : ℝ}

/-- An expression that counts as one operand with value `v`. -/
def Factor (σ : Memory) (e : Expr Exact) (v : ℝ) : Prop :=
  ∀ before scale divides, e.read σ (.want before scale divides) =
    some (.got before (if divides then scale / v else scale * v))

def Term (σ : Memory) (e : Expr Exact) (v : ℝ) : Prop :=
  ∀ before scale, e.read σ (.want before scale false) = some (.got before (scale * v))

lemma value_eq_some :
    e.value σ = some v ↔ ∃ before term, e.read σ .start = some (.got before term) ∧ before + term = v := by
  unfold Expr.value
  rcases h : e.read σ .start with _ | ⟨b, s, d⟩ | ⟨b, t⟩ <;> simp [Scan.finish]

lemma Factor.term (h : Factor σ e v) : Term σ e v := fun b s => by simpa using h b s false

lemma Term.value (h : Term σ e v) : e.value σ = some v := value_eq_some.2 ⟨0, 1 * v, h 0 1, by ring⟩

lemma Factor.value (h : Factor σ e v) : e.value σ = some v := h.term.value

lemma Factor.number (f : NumberFormat) (n : Exact) : Factor σ (.number f n) n.toReal := fun _ _ _ => rfl

lemma Factor.plain (n : Exact) : Factor σ (.plain n) n.toReal := fun _ _ _ => rfl

lemma Factor.full (n : Exact) : Factor σ (.full n) n.toReal := fun _ _ _ => rfl

lemma Factor.constant (d : Decimal) : Factor σ (.constant d) d.toReal := fun _ _ _ => rfl

lemma Factor.one : Factor σ 1.0 1 := by
  have h := Factor.constant (σ := σ) ⟨10, 1, 0⟩
  rwa [show Decimal.toReal ⟨10, 1, 0⟩ = 1 by norm_num [Decimal.toReal]] at h

lemma Factor.element (array : String) (index : Option Int) :
    Factor σ (.element array index) (σ (.cell array index)) := fun _ _ _ => rfl

lemma Factor.slot (label : String) : Factor σ (.slot label) (σ (.slot label)) := fun _ _ _ => rfl

lemma Factor.var (name : String) : Factor σ (.var name) (σ.var name) := fun _ _ _ => rfl

lemma Factor.cell (array : String) (k : ℕ) : Factor σ (.cell array k) (σ.row array k) := fun _ _ _ => rfl

lemma read_group (s : Scan) : (Expr.group e).read σ s = (e.value σ).bind s.operand := rfl

lemma read_hole (s : Scan) : Expr.hole.read σ s = some s := rfl

lemma read_neg (s : Scan) (h : e.startsSigned = false) : (-e).read σ s = (s.operator .minus).bind (e.read σ) := by
  change (if (0 == 0 && e.startsSigned) = true then none else _) = _
  rw [h]
  rfl

lemma read_binary (op : Operator) (gap : Gap) (s : Scan) :
    (Expr.binary op gap a b).read σ s = (a.read σ s).bind fun s =>
      if op == .minus && gap.isTight && b.startsSigned then none else (s.operator op).bind (b.read σ) := rfl

lemma read_apply (f : String) (inner : ℕ) (s : Scan) : (Expr.apply f inner e).read σ s =
      (function1 f).bind fun f => (e.value σ).bind fun v => s.operand (f v) := rfl

lemma Factor.group (h : e.value σ = some v) : Factor σ (.group e) v := by
  intro b s d
  rw [read_group, h]
  rfl

lemma Factor.apply {f : String} {g : ℝ → ℝ} {n : ℕ} (hf : function1 f = some g) (h : e.value σ = some v) :
    Factor σ (.apply f n e) (g v) := by
  intro b s d
  rw [read_apply, h, hf]
  rfl

lemma Factor.exp (h : e.value σ = some v) : Factor σ (.exp e) (Real.exp v) := Factor.apply rfl h

lemma Factor.log (h : e.value σ = some v) : Factor σ (.log e) (Real.log v) := Factor.apply rfl h

lemma Factor.log10 (h : e.value σ = some v) : Factor σ (.log10 e) (Real.logb (10 : ℕ) v) := Factor.apply rfl h

lemma Factor.apply2 {f : String} {g : ℝ → ℝ → ℝ} (hf : function2 f = some g) (ha : a.value σ = some x)
    (hb : b.value σ = some y) : Factor σ (.apply2 f a b) (g x y) := by
  intro before scale divides
  rw [Expr.value] at ha hb
  simp [Expr.read, ha, hb, hf, Scan.operand]

lemma Factor.pow (ha : a.value σ = some x) (hb : b.value σ = some y) : Factor σ (.pow a b) (x ^ y) :=
  Factor.apply2 rfl ha hb

lemma Factor.neg (h : Factor σ e v) (hs : e.startsSigned = false) : Factor σ (-e) (-v) := by
  intro b s d
  rw [read_neg _ hs]
  simp only [Scan.operator, Option.bind_some, h b (-s) d]
  cases d <;> simp [div_neg, neg_div]

lemma Term.neg (h : Term σ e v) (hs : e.startsSigned = false) : Term σ (-e) (-v) := by
  intro b s
  rw [read_neg _ hs]
  simp [Scan.operator, h b (-s)]

variable {gap : Gap}

lemma Term.times (ha : Term σ a x) (hb : Term σ b y) : Term σ (.binary .times gap a b) (x * y) := by
  intro before s
  simp [read_binary, ha before s, Scan.operator, hb before (s * x), mul_assoc]

lemma Term.mul (ha : Term σ a x) (hb : Term σ b y) : Term σ (a * b) (x * y) := ha.times hb

lemma Term.div (ha : Term σ a x) (hb : Factor σ b y) : Term σ (a / b) (x / y) := by
  intro before s
  change (Expr.binary .over {} a b).read σ _ = _
  simp [read_binary, ha before s, Scan.operator, hb before, mul_div_assoc]

lemma value_plus (ha : a.value σ = some x) (hb : Term σ b y) : (Expr.binary .plus gap a b).value σ = some (x + y) := by
  obtain ⟨before, t, hr, rfl⟩ := value_eq_some.1 ha
  refine value_eq_some.2 ⟨before + t, 1 * y, ?_, by ring⟩
  simp [read_binary, hr, Scan.operator, hb (before + t)]

lemma value_add (ha : a.value σ = some x) (hb : Term σ b y) : (a + b).value σ = some (x + y) := value_plus ha hb

lemma value_minus (ha : a.value σ = some x) (hb : Term σ b y)
    (hs : gap.isTight = true → b.startsSigned = false) : (Expr.binary .minus gap a b).value σ = some (x - y) := by
  obtain ⟨before, t, hr, rfl⟩ := value_eq_some.1 ha
  refine value_eq_some.2 ⟨before + t, -1 * y, ?_, by ring⟩
  have hg : (gap.isTight && b.startsSigned) = false := by
    cases hgp : gap.isTight with
    | false => rfl
    | true => exact hs hgp
  simp [read_binary, hr, hg, Scan.operator, hb (before + t)]

lemma value_sub (ha : a.value σ = some x) (hb : Term σ b y) : (a - b).value σ = some (x - y) :=
  value_minus ha hb (by simp [Gap.isTight])

lemma value_hole_sub (hb : Term σ b y) : (Expr.hole - b).value σ = some (-y) := by
  refine value_eq_some.2 ⟨0, -1 * y, ?_, by ring⟩
  change (Expr.binary .minus {} .hole b).read σ _ = _
  simp [read_binary, read_hole, Gap.isTight, Scan.start, Scan.operator, hb 0]

lemma value_hole_add (hb : Term σ b y) : (Expr.hole + b).value σ = some y := by
  refine value_eq_some.2 ⟨0, 1 * y, ?_, by ring⟩
  change (Expr.binary .plus {} .hole b).read σ _ = _
  simp [read_binary, read_hole, Scan.start, Scan.operator, hb 0]

lemma value_padded (before after : ℕ) : (Expr.padded before after e).value σ = e.value σ := rfl

/-- A term times a sum in parentheses has a value exactly if the sum has one. -/
lemma value_mul_group (ha : Term σ a x) : (a * .group e).value σ = (e.value σ).map (x * ·) := by
  cases he : e.value σ with
  | some v => exact (ha.mul (Factor.group he).term).value
  | none =>
    change ((a.read σ .start).bind fun s => (s.operator .times).bind ((Expr.group e).read σ)).bind _ = _
    rw [Scan.start, ha 0 1]
    simp [Scan.operator, read_group, he]

lemma value_group : (Expr.group e).value σ = e.value σ := by
  cases he : e.value σ with
  | some v => exact (Factor.group he).value
  | none =>
    rw [Expr.value, read_group, he]
    rfl

lemma value_neg_group : (-Expr.group e).value σ = (e.value σ).map (-·) := by
  cases he : e.value σ with
  | some v => exact ((Factor.group he).neg rfl).value
  | none =>
    change ((Scan.start.operator .minus).bind ((Expr.group e).read σ)).bind _ = _
    simp [Scan.start, Scan.operator, read_group, he]

end Parts

/-! ## Running by parts -/

section Runs
variable {σ : Memory} {e target : Expr Exact} {p : Place} {v : ℝ}

lemma run_assign (indent : ℕ) (form : Form) (ht : target.location = some p) (he : e.value σ = some v) :
    (Step.assign indent target form e).run σ = some (Function.update σ p (form.update (σ p) v)) := by
  simp [Step.run, ht, he]

@[simp] lemma run_blank : Step.run σ .blank = some σ := rfl

@[simp] lemma run_remark (text : String) : Step.run σ (.remark text) = some σ := rfl

lemma run_setVar_eq (name : String) : (Step.setVar name e).run σ = (e.value σ).map (σ.setVar name) := by
  change (e.value σ).bind _ = _
  cases e.value σ <;> rfl

lemma run_setVar (name : String) (he : e.value σ = some v) : (Step.setVar name e).run σ = some (σ.setVar name v) := by
  rw [run_setVar_eq, he, Option.map_some]

lemma run_setCell (array : String) (i : ℤ) (he : e.value σ = some v) :
    (Step.set (.cell array i) e).run σ = some (σ.setRow array i v) :=
  run_assign 2 .set rfl he

@[simp] lemma setVar_self (name : String) : σ.setVar name (σ.var name) = σ := Function.update_eq_self _ _

@[simp] lemma var_update_var (a b : String) : (σ.setVar a v).var b = if b = a then v else σ.var b := by
  simp [Function.update_apply]

@[simp] lemma row_update_var (a b : String) (k : ℕ) : (σ.setVar a v).row b k = σ.row b k := by
  simp

@[simp] lemma row_update_var_eq (a b : String) : (σ.setVar a v).row b = σ.row b :=
  funext (row_update_var a b)

lemma row_update_row_of_ne {a b : String} (h : b ≠ a) (i : ℤ) : (σ.setRow a i v).row b = σ.row b := by
  funext k
  simp [h]

lemma row_update_row (array : String) (i k : ℕ) :
    (σ.setRow array i v).row array k = if k = i then v else σ.row array k := by
  simp [Function.update_apply]

end Runs

/-! ## Filling arrays -/

section Arrays
variable {ι : Type} {array : String} {xs ys : List ℕ} {v : ℕ → ℝ} {σ τ ρ : Memory}

/-- The memories differ in the entries of one array only. -/
def OnlyIn (array : String) (σ τ : Memory) : Prop := ∀ p, (∀ i : ℤ, p ≠ .cell array (some i)) → τ p = σ p

lemma OnlyIn.trans (h : OnlyIn array σ τ) (h' : OnlyIn array τ ρ) : OnlyIn array σ ρ :=
  fun p hp => (h' p hp).trans (h p hp)

lemma OnlyIn.row (h : OnlyIn array σ τ) {b : String} (hb : b ≠ array) (k : ℕ) : τ.row b k = σ.row b k :=
  h _ fun i hi => hb (by injection hi)

lemma OnlyIn.var (h : OnlyIn array σ τ) (name : String) : τ.var name = σ.var name := h _ fun _ => by simp

/-- The memory `τ` holds the values in the entries of an array, and is `σ` elsewhere. -/
structure Stored (array : String) (xs : List ℕ) (v : ℕ → ℝ) (σ τ : Memory) : Prop where
  entry : ∀ s ∈ xs, τ.row array s = v s
  other : ∀ p, (∀ s ∈ xs, p ≠ .cell array (some (s : ℤ))) → τ p = σ p

lemma Stored.onlyIn (h : Stored array xs v σ τ) : OnlyIn array σ τ := fun p hp => h.other p fun s _ => hp s

lemma Stored.other_row (h : Stored array xs v σ τ) {k : ℕ} (hk : k ∉ xs) : τ.row array k = σ.row array k :=
  h.other _ fun s hs hks => hk (by simp_all)

lemma Stored.congr (h : Stored array xs v σ τ) (hm : ∀ s, s ∈ xs ↔ s ∈ ys) : Stored array ys v σ τ :=
  ⟨fun s hs => h.entry s ((hm s).2 hs), fun p hp => h.other p fun s hs => hp s ((hm s).1 hs)⟩

lemma Stored.append (h : Stored array xs v σ τ) (h' : Stored array ys v τ ρ) : Stored array (xs ++ ys) v σ ρ where
  entry s hs := by
    by_cases hy : s ∈ ys
    · exact h'.entry s hy
    · rw [h'.other_row hy]
      exact h.entry s ((List.mem_append.1 hs).resolve_right hy)
  other p hp := by
    rw [List.forall_mem_append] at hp
    rw [h'.other p hp.2, h.other p hp.1]

lemma stored_update (array : String) (σ : Memory) (i : ℕ) (v : ℕ → ℝ) :
    Stored array [i] v σ (σ.setRow array i (v i)) where
  entry s hs := by rw [row_update_row, if_pos (List.mem_singleton.1 hs), List.mem_singleton.1 hs]
  other p hp := Function.update_of_ne (hp i (List.mem_singleton_self i)) _ _

/-- Items that each store values which do not depend on the array. -/
lemma stored_items (array : String) (item : ι → Item Exact) (g : ι → List ℕ) {ks : List ι}
    (h : ∀ k ∈ ks, ∀ τ, OnlyIn array σ τ → ∃ ρ, (item k).run τ = some ρ ∧ Stored array (g k) v τ ρ) :
    ∃ τ, runItems σ (ks.map item) = some τ ∧ Stored array (ks.flatMap g) v σ τ := by
  induction ks generalizing σ with
  | nil => exact ⟨σ, rfl, by simp, fun _ _ => rfl⟩
  | cons k ks ih =>
    rw [List.forall_mem_cons] at h
    obtain ⟨σ₁, hf, hs⟩ := h.1 σ fun _ _ => rfl
    obtain ⟨τ, hr, hm⟩ := ih fun k hk τ ho => h.2 k hk τ (hs.onlyIn.trans ho)
    exact ⟨τ, by rw [List.map_cons, runItems, hf, Option.bind_some, hr], hs.append hm⟩

lemma stored_assigns (array : String) (indent : ℕ) {f : ι → ℕ} {e : ι → Expr Exact} {ks : List ι}
    (h : ∀ k ∈ ks, ∀ τ, OnlyIn array σ τ → (e k).value τ = some (v (f k))) :
    ∃ τ, runSteps σ (ks.map fun k => .assign indent (.cell array (f k)) .set (e k)) = some τ ∧
      Stored array (ks.map f) v σ τ := by
  obtain ⟨τ, hτ, hs⟩ := stored_items array (fun k => .step (.assign indent (.cell array (f k)) .set (e k)))
    (fun k => [f k]) fun k hk τ ho => ⟨_, run_assign indent .set rfl (h k hk τ ho), stored_update array τ (f k) v⟩
  rw [← List.map_eq_flatMap] at hs
  exact ⟨τ, by rw [← hτ, ← runItems_steps, List.map_map]; rfl, hs⟩

end Arrays

end

end Kinetics.Code
